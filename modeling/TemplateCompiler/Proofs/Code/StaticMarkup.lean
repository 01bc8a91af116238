import TemplateCompiler.Compile
import TemplateCompiler.Proofs.Code.Nesting
import TemplateCompiler.Proofs.Directive.Static
import TemplateCompiler.Proofs.Host.Quoted

/-! # Markup without code is echoed as it is

The entries of a template without code add no line to a writer, only their markup. The function
body is then one statement at most, and its literal denotes markup that has the elements of the
source: no text and no value breaks out of its place.
-/
namespace TemplateCompiler.Code
open Markup Directive Host

namespace Writer

variable {options : Options} {depth : Nat}

theorem property_static {e : String × Value} (h : IsStaticProperty e) (w : Writer) (indent : Nat)
    (faultAt : Cause → Fault) :
    w.property options indent faultAt e =
      .ok (w.literal (writtenProperty (echoedProperty options e))) := by
  have hspread := h.no_spread
  have hwritable := h.writable.2
  have hcode := h.no_code
  obtain ⟨name, value⟩ := e
  cases value with
  | null => exact absurd rfl hwritable
  | flag =>
    have hempty : writtenProperty (name, .text "") = " " ++ name ++ "=\"\"" := by
      rw [← String.toList_inj]
      simp [writtenProperty, escapeProperty]
    simp only [property, if_neg hspread, echoedProperty]
    split
    · rfl
    · rw [hempty]
  | text content =>
    have hplain : ¬ mayHoldCode content = true := by simp [hcode content rfl]
    simp only [property, if_neg hspread, if_neg hplain, literal_literal]
    rfl

theorem properties_static {properties : List (String × Value)}
    (h : ∀ e ∈ properties, IsStaticProperty e) (w : Writer) (indent : Nat)
    (faultAt : Cause → Fault) :
    properties.foldlM (fun w p => w.property options indent faultAt p) w =
      .ok (w.literal (String.join
        ((properties.map (echoedProperty options)).map writtenProperty))) := by
  induction properties generalizing w with
  | nil => exact congrArg Except.ok w.literal_empty.symm
  | cons e rest ih =>
    obtain ⟨he, hrest⟩ := List.forall_mem_cons.1 h
    rw [List.foldlM_cons, property_static he]
    exact (ih hrest _).trans (by simp [literal_literal])

theorem tag_static (options : Options) {tag : String} {properties : Properties}
    (hp : ∀ e ∈ properties.toList, IsStaticProperty e) (w : Writer) (indent : Nat)
    (faultAt : Cause → Fault) :
    ∃ v, properties.toList.foldlM (fun w p => w.property options indent faultAt p)
        ((w.literal "<").literal tag) = .ok v ∧
      v.literal ">" = w.literal (writtenTag tag (echoedProperties options properties)) := by
  refine ⟨_, properties_static hp _ indent faultAt, ?_⟩
  simp only [literal_literal, writtenTag, echoedProperties, Properties.toList]

theorem entries_of_forall {entries : List Entry}
    (h : ∀ e ∈ entries, ∀ (w : Writer) (indent : Nat),
      w.entry options indent e = .ok (w.literal (writeNode (e.echoed options))))
    (w : Writer) (indent : Nat) :
    w.entries options indent entries = .ok (w.literal (write (echoedAll options entries))) := by
  induction entries generalizing w with
  | nil => exact congrArg Except.ok w.literal_empty.symm
  | cons e rest ih =>
    obtain ⟨he, hrest⟩ := List.forall_mem_cons.1 h
    have htail := ih hrest (w.literal (writeNode (e.echoed options)))
    rw [literal_literal] at htail
    exact bind_eq_ok.2 ⟨_, he w indent, htail⟩

theorem entry_static {e : Entry} (h : Static depth e) (w : Writer) (indent : Nat) :
    w.entry options indent e = .ok (w.literal (writeNode (e.echoed options))) := by
  induction h generalizing w indent with
  | text hc hr =>
    rw [entry, Writer.text, if_neg (by simp [hc])]
    rfl
  | @void _ tag properties position hname hr hv hp =>
    simp only [entry, hv, List.isEmpty_nil, Bool.not_true, Bool.and_false]
    obtain ⟨v, hfold, hv'⟩ := tag_static options hp w indent fun cause =>
      ⟨cause, position, openingTag tag properties⟩
    refine bind_eq_ok.2 ⟨v, hfold, congrArg Except.ok ?_⟩
    simp [hv', writeNode, Entry.echoed, hv]
  | @element _ tag properties children position hname hr hv hp hd hi ih =>
    simp only [entry, hv, Bool.false_and]
    obtain ⟨v, hfold, hv'⟩ := tag_static options hp w indent fun cause =>
      ⟨cause, position, openingTag tag properties⟩
    refine bind_eq_ok.2 ⟨v, hfold, ?_⟩
    have hchildren := entries_of_forall ih (v.literal ">") indent
    refine bind_eq_ok.2 ⟨_, hchildren, congrArg Except.ok ?_⟩
    simp [hv', writeNode, Entry.echoed, hv, literal_literal, String.append_assoc]

theorem entries_static {entries : List Entry} (h : ∀ e ∈ entries, Static depth e) (w : Writer)
    (indent : Nat) :
    w.entries options indent entries = .ok (w.literal (write (echoedAll options entries))) :=
  entries_of_forall (fun e he => entry_static (h e he)) w indent

end Writer

/-! ## The function -/

def plainPreamble : List Line :=
  [⟨0, "<?php"⟩, ⟨0, functionHead⟩, ⟨1, "extract($zProps);"⟩, ⟨1, "unset($zProps);"⟩]

def echoLines (markup : String) :
    List Line := if markup = "" then [] else [⟨1, LiteralBuffer.echo markup⟩]

theorem renderFunction_static {depth : Nat} {template : Template}
    (h : ∀ e ∈ template.body, Static depth e) (hu : template.uses = []) (options : Options) :
    renderFunction template options = .ok (String.join
      ((plainPreamble ++
        echoLines (template.doctype.getD "" ++ write (echoedAll options template.body)) ++
          [(⟨0, "\x7d;"⟩ : Line)]).map Line.render)) := by
  have hpending : (preamble template).buffer.pending = "" := Writer.line_pending _ _ _
  have hlines : (preamble template).lines.toList = plainPreamble := by
    rw [preamble_lines, hu]
    rfl
  refine bind_eq_ok.2 ⟨_, Writer.entries_static h _ 1, congrArg Except.ok ?_⟩
  rw [Writer.render, Writer.line_lines, Writer.flush_of_empty (Writer.flush_pending _ 1),
    Writer.flush_lines]
  simp [Writer.literal, LiteralBuffer.push, hpending, hlines, echoLines]

/-! ## The markup that is read back -/

/-- How a property comes back from the markup that is echoed. -/
def compiledProperty (options : Options) : String × Value → String × Value
  | (name, .text content) => (name, .text (escapeApostrophes content))
  | (name, .flag) => if options.isBooleanAttribute name then (name, .flag) else (name, .text "")
  | (name, .null) => (name, .null)

theorem reread_echoedProperty (options : Options) :
    (fun e => rereadProperty (echoedProperty options e)) = compiledProperty options := by
  funext e
  obtain ⟨name, value⟩ := e
  cases value with
  | text content => rfl
  | null => rfl
  | flag =>
    rw [echoedProperty, compiledProperty]
    split
    · rfl
    · rfl

/-- The markup that is echoed is that of a tree with the doctype before the entries. -/
theorem exists_written {depth : Nat} {nodes : List Node} {entries : List Entry}
    {doctype : Option String} (options : Options) (hw : Writable true depth nodes)
    (hd : doctype = (doctypes nodes).getLast?) (h : ∀ e ∈ entries, Static 0 e) :
    ∃ written, Writable true 0 written ∧
      write written = doctype.getD "" ++ write (echoedAll options entries) ∧
      doctypes written = doctypes nodes ∧
      ∀ change, outlines change written = outlines change (echoedAll options entries) := by
  have hnone : doctypes (echoedAll options entries) = [] :=
    (writable_echoedAll false h).doctypes_eq.resolve_right fun h => Bool.false_ne_true h.1
  rcases hw.doctypes_eq with hempty | ⟨-, inside, hinside, hdash, hone⟩
  · subst hd
    refine ⟨echoedAll options entries, writable_echoedAll true h, ?_, by rw [hnone, hempty],
      fun _ => rfl⟩
    simp [hempty]
  · subst hd
    refine ⟨.doctype (String.ofList (['<', '!'] ++ inside ++ ['>'])) .start ::
      echoedAll options entries, .doctype rfl hinside hdash (writable_echoedAll false h), ?_, ?_,
      fun _ => rfl⟩
    · simp [hone]
    · rw [doctypes_doctype, hnone, hone]

theorem withoutReturns_eq_self {text : String} (h : '\r' ∉ text.toList) :
    withoutReturns text = text := by
  have hkept : text.toList.filter (· ≠ '\r') = text.toList := by
    refine List.filter_eq_self.2 fun c hc => ?_
    have hne : c ≠ '\r' := fun he => h (he ▸ hc)
    simpa using hne
  rw [withoutReturns, hkept, String.ofList_toList]

theorem return_notMem_doctype {nodes : List Node} (h : ∀ n ∈ allNodes nodes, n.Avoids '\r') :
    '\r' ∉ ((doctypes nodes).getLast?.getD "").toList := by
  cases hd : (doctypes nodes).getLast? with
  | none => simp
  | some literal =>
    obtain ⟨n, hn, hliteral⟩ := List.mem_filterMap.1 (List.mem_of_getLast? hd)
    have havoids := h n hn
    cases n with
    | doctype text p =>
      cases hliteral
      exact havoids
    | text content p => cases hliteral
    | tag name properties children p => cases hliteral

end TemplateCompiler.Code

namespace TemplateCompiler
open Markup Directive Code Host

/-- A source without carriage returns, directives and code, whose elements are not nested too deep,
is compiled whatever the options are. The body of the function is one statement at most, which
echoes markup with the doctype and the elements of the source. -/
theorem compile_static {source : String} {nodes : List Node} (options : Options)
    (hn : parse source = .ok nodes) (hr : '\r' ∉ source.toList)
    (hdeep : ∀ r, Reader.Passes (.ofSource source) r → r.depth < maxDepth)
    (hs : ∀ n ∈ allNodes nodes, isStaticNode n = true) :
    ∃ body markup more,
      compile source options =
          .ok (String.join ((plainPreamble ++ body ++ [(⟨0, "\x7d;"⟩ : Line)]).map Line.render)) ∧
        (body = [] ∧ markup = "" ∨
          ∃ literal, body = [⟨1, "echo " ++ literal ++ ";"⟩] ∧ literalValue? literal =
            some markup) ∧
        parse markup = .ok more ∧ doctypes more = doctypes nodes ∧
        outlines id more = outlines (compiledProperty options) nodes := by
  have hw := writable_of_parse hn hdeep
  have havoids := (document_of_parse hn).avoids (x := '\r') (by decide) hr
  obtain ⟨template, htemplate, hstatic, huses, hdoctype, houtlines⟩ :=
    exists_template_static hw (fun n hn => ⟨hs n hn, havoids n hn⟩) options rereadProperty
  obtain ⟨written, hwritten, hmarkup, hdoctypes, hsame⟩ :=
    exists_written options hw hdoctype hstatic
  obtain ⟨more, hparse, hmore, houtlinesMore⟩ := hwritten.outlines_eq
  have hreturn : '\r' ∉ (write written).toList := by
    rw [hmarkup, hdoctype, String.toList_append, List.mem_append, not_or]
    exact ⟨return_notMem_doctype havoids, return_notMem_write hstatic⟩
  have hcompile : compile source options = .ok (String.join
      ((plainPreamble ++ echoLines (write written) ++
        [(⟨0, "\x7d;"⟩ : Line)]).map Line.render)) := by
    rw [compile, TemplateCompiler.template, hn, hmarkup]
    exact bind_eq_ok.2 ⟨template, htemplate, renderFunction_static hstatic huses options⟩
  refine ⟨echoLines (write written), write written, more, hcompile, ?_, hparse,
    hmore.trans hdoctypes, ?_⟩
  · unfold echoLines
    split
    · next hempty => exact .inl ⟨rfl, hempty⟩
    · refine .inr ⟨staticLiteral (write written), rfl, ?_⟩
      rw [literalValue?_staticLiteral, withoutReturns_eq_self hreturn]
  · rw [houtlinesMore, hsame, houtlines, reread_echoedProperty]

def card : String := "<!x><p title=\"it's\" hidden id=\"&quot;1\">a > b<br/></p>"

def cardNodes : List Node :=
  [.doctype "<!x>" .start,
    .tag "p" ⟨[("title", .text "it's"), ("hidden", .flag), ("id", .text "\"1")], by decide⟩
      [.text "a > b" ⟨40, 1, 41⟩, .tag "br" .empty [] ⟨45, 1, 46⟩] ⟨4, 1, 5⟩]

/-- An apostrophe comes back as an entity, and a flag that is no boolean attribute with an empty
value. -/
theorem compile_static_card :
    parse card = .ok cardNodes ∧
      ∃ body markup more,
        compile card {} =
            .ok (String.join ((plainPreamble ++ body ++ [(⟨0, "\x7d;"⟩ : Line)]).map Line.render)) ∧
          (body = [] ∧ markup = "" ∨
            ∃ literal, body = [⟨1, "echo " ++ literal ++ ";"⟩] ∧ literalValue? literal =
              some markup) ∧
          parse markup = .ok more ∧ doctypes more = ["<!x>"] ∧
          outlines id more =
            [.element "p" [("title", .text "it&apos;s"), ("hidden", .text ""), ("id", .text "\"1")]
              [.element "br" [] []]] := by
  have hn : parse card = .ok cardNodes := by with_unfolding_all rfl
  have hr : '\r' ∉ card.toList := by decide
  have hdeep : ∀ r, Reader.Passes (.ofSource card) r → r.depth < maxDepth := by
    intro r hpasses
    have hle := hpasses.depth_le (Reader.legal_ofSource card)
    have hlength :
        (Reader.ofSource card).depth + (Reader.ofSource card).cursor.rest.length <
          maxDepth := by decide
    omega
  have hs : ∀ n ∈ allNodes cardNodes, isStaticNode n = true := by decide
  obtain ⟨body, markup, more, hcompile, hbody, hparse, hdoctypes, houtlines⟩ :=
    compile_static {} hn hr hdeep hs
  refine ⟨hn, body, markup, more, hcompile, hbody, hparse, hdoctypes, houtlines.trans ?_⟩
  with_unfolding_all rfl

end TemplateCompiler
