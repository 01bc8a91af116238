import TemplateCompiler.Proofs.Code.Nesting
import TemplateCompiler.Proofs.Directive.Static
import TemplateCompiler.Proofs.Host.Quoted
import TemplateCompiler.Proofs.Host.Segments

/-! # What echoed values print

A value with a dollar sign or a brace is escaped by the renderer when the function runs, any other
one when it is compiled. A value that has neither a dollar sign nor code between braces prints the
same either way: its expression is a literal, and escaping does not meddle with carriage returns.
-/
namespace TemplateCompiler.Code
open Markup Directive Host Text

structure Renderer where
  escapeText : String → String
  escapeProperty : String → String

/-- The renderer escapes values as the compiler does. -/
structure Renderer.Escapes (r : Renderer) : Prop where
  text : ∀ value, r.escapeText value = Markup.escapeText value
  property : ∀ value, r.escapeProperty value = Markup.escapeProperty value

/-! ## Statements -/

/-- The value of the literal that a statement holds between its front and its back. -/
def literalWithin? (front back statement : String) : Option String :=
  (between? front.toList back.toList statement.toList).bind fun literal =>
    literalValue? (String.ofList literal)

/-- What a statement prints that echoes a literal, as it is or escaped by the renderer. -/
def printed? (r : Renderer) (statement : String) : Option String :=
  literalWithin? "echo " ";" statement <|>
    (literalWithin? "echo $zRenderer->escapeText(" ");" statement).map r.escapeText <|>
      (literalWithin? "echo $zRenderer->escapeProperty(" ");" statement).map r.escapeProperty

def printedBy? (r : Renderer) : List Line → Option String
  | [] => some ""
  | line :: rest => do
    let first ← printed? r line.text
    let others ← printedBy? r rest
    return first ++ others

section Statement

variable {r : Renderer} {literal value : String}

theorem literalWithin?_append (front literal back : String) :
    literalWithin? front back (front ++ literal ++ back) = literalValue? literal := by
  have hbetween : between? front.toList back.toList (front ++ literal ++ back).toList =
      some literal.toList := by
    rw [between?_eq_some_iff, String.toList_append, String.toList_append]
  rw [literalWithin?, hbetween, Option.bind_some, String.ofList_toList]

theorem printed?_echo (h : literalValue? literal = some value) :
    printed? r ("echo " ++ literal ++ ";") = some value := by
  rw [printed?, literalWithin?_append, h]
  rfl

theorem literalWithin?_call (call literal : String) (h : call.toList.head? = some '$') :
    literalWithin? "echo " ";" ("echo " ++ call ++ literal ++ ");") = none := by
  have hback : ");" = ")" ++ ";" := by decide
  have hstatement : "echo " ++ call ++ literal ++ ");" = "echo " ++ (call ++ literal ++ ")") ++
      ";" := by
    simp only [hback, String.append_assoc]
  obtain ⟨rest, hrest⟩ := List.head?_eq_some_iff.1 h
  rw [hstatement, literalWithin?_append]
  simp [literalValue?, hrest]

theorem printed?_escapeText (h : literalValue? literal = some value) :
    printed? r ("echo $zRenderer->escapeText(" ++ literal ++ ");") = some (r.escapeText value) := by
  have hcall : literalWithin? "echo " ";" ("echo $zRenderer->escapeText(" ++ literal ++ ");") =
      none :=
    literalWithin?_call "$zRenderer->escapeText(" literal (by decide)
  rw [printed?, hcall, literalWithin?_append, h]
  rfl

theorem printed?_escapeProperty (h : literalValue? literal = some value) :
    printed? r ("echo $zRenderer->escapeProperty(" ++ literal ++ ");") =
      some (r.escapeProperty value) := by
  have hcall : literalWithin? "echo " ";" ("echo $zRenderer->escapeProperty(" ++ literal ++ ");") =
      none :=
    literalWithin?_call "$zRenderer->escapeProperty(" literal (by decide)
  have hother : literalWithin? "echo $zRenderer->escapeText(" ");"
      ("echo $zRenderer->escapeProperty(" ++ literal ++ ");") = none := by
    simp [literalWithin?, between?, dropPrefix?]
  rw [printed?, hcall, hother, literalWithin?_append, h]
  rfl

end Statement

/-! ## Writers -/

theorem withoutReturns_append (a b : String) :
    withoutReturns (a ++ b) = withoutReturns a ++ withoutReturns b := by
  simp [withoutReturns, String.ofList_append]

theorem printedBy?_append {r : Renderer} {lines more : List Line} {out rest : String}
    (h : printedBy? r lines = some out) (hm : printedBy? r more = some rest) :
    printedBy? r (lines ++ more) = some (out ++ rest) := by
  induction lines generalizing out with
  | nil =>
    cases h
    simpa using hm
  | cons line lines ih =>
    obtain ⟨first, hfirst, h⟩ := Option.bind_eq_some_iff.1 h
    obtain ⟨others, hothers, h⟩ := Option.bind_eq_some_iff.1 h
    cases h
    simp [printedBy?, hfirst, ih hothers, String.append_assoc]

namespace Writer

/-- Behind the lines of `w`, what `v` has written when it is flushed prints `out`. -/
def Prints (r : Renderer) (indent : Nat) (w v : Writer) (out : String) : Prop :=
  ∃ added, (v.flush indent).lines.toList = w.lines.toList ++ added ∧ printedBy? r added = some out

variable {r : Renderer} {indent : Nat} {w v : Writer} {statement value out : String}

theorem exists_flushed (r : Renderer) (indent : Nat) (w : Writer) :
    ∃ added, (w.flush indent).lines.toList = w.lines.toList ++ added ∧
      printedBy? r added = some (withoutReturns w.buffer.pending) := by
  refine ⟨_, w.flush_lines indent, ?_⟩
  split
  · next hempty =>
    rw [hempty]
    rfl
  · have hprinted : printed? r (LiteralBuffer.echo w.buffer.pending) =
        some (withoutReturns w.buffer.pending) :=
      printed?_echo (literalValue?_staticLiteral w.buffer.pending)
    simp [printedBy?, hprinted]

theorem prints_of_lines (indent : Nat) {added : List Line}
    (h : v.lines.toList = w.lines.toList ++ added) (hp : printedBy? r added = some out) :
    Prints r indent w v (out ++ withoutReturns v.buffer.pending) := by
  obtain ⟨flushed, hflushed, hpending⟩ := v.exists_flushed r indent
  exact ⟨added ++ flushed, by rw [hflushed, h, List.append_assoc], printedBy?_append hp hpending⟩

theorem prints_literal (r : Renderer) (indent : Nat) (w : Writer) (markup : String) :
    Prints r indent w (w.literal markup) (withoutReturns (w.buffer.pending ++ markup)) := by
  have h : (w.literal markup).lines.toList = w.lines.toList ++ [] := by simp [literal]
  have hnone : printedBy? r [] = some "" := rfl
  simpa [literal, LiteralBuffer.push] using prints_of_lines indent h hnone

theorem prints_line (hp : printed? r statement = some out) (indent : Nat) (w : Writer)
    (markup : String) :
    Prints r indent w ((w.line indent statement).literal markup)
      (withoutReturns w.buffer.pending ++ out ++ withoutReturns markup) := by
  obtain ⟨flushed, hflushed, hpending⟩ := w.exists_flushed r indent
  have hlines : ((w.line indent statement).literal markup).lines.toList =
      w.lines.toList ++ (flushed ++ [⟨indent, statement⟩]) := by
    simp [literal, line_lines, hflushed]
  have hstatement : printedBy? r [⟨indent, statement⟩] = some out := by simp [printedBy?, hp]
  have hbehind : ((w.line indent statement).literal markup).buffer.pending = markup := by
    simp [literal, LiteralBuffer.push, line_pending]
  have h := prints_of_lines indent hlines (printedBy?_append hpending hstatement)
  rwa [hbehind] at h

end Writer

/-! ## Values without code -/

theorem literalValue?_expression {value : String} (hd : '$' ∉ value.toList)
    (hp : Unpaired value.toList) :
    literalValue? (expression value) = some (withoutReturns value) := by
  have hv : isVariable value = false := by
    rw [isVariable_eq_false_iff]
    intro name hvalue
    exact absurd (hvalue ▸ List.mem_cons_self) hd
  rw [expression_of_unpaired hv hp, liveLiteral_eq_staticLiteral hd, literalValue?_staticLiteral]

theorem escape_withoutReturns {entity : Char → List Char}
    (hentity : ∀ c, c ≠ '\r' → '\r' ∉ entity c) (hreturn : entity '\r' = ['\r'])
    (text : List Char) :
    (text.filter (· ≠ '\r')).flatMap entity = (text.flatMap entity).filter (· ≠ '\r') := by
  induction text with
  | nil => rfl
  | cons c text ih =>
    rw [List.flatMap_cons, List.filter_append, ← ih]
    by_cases hc : c = '\r'
    · subst hc
      simp [hreturn]
    · have hkept : (entity c).filter (· ≠ '\r') = entity c := by
        refine List.filter_eq_self.2 fun d hd => ?_
        have hne : d ≠ '\r' := fun he => hentity c hc (he ▸ hd)
        simpa using hne
      rw [hkept, List.filter_cons_of_pos (by simpa using hc), List.flatMap_cons]

theorem escapeText_withoutReturns (value : String) :
    escapeText (withoutReturns value) = withoutReturns (escapeText value) := by
  have hentity : ∀ c, c ≠ '\r' → '\r' ∉ textEntity c := by
    intro c hc
    have h : '\r' ∉ [c].flatMap textEntity := return_notMem_textEntity (by simpa using Ne.symm hc)
    simpa using h
  simp only [escapeText, withoutReturns, String.toList_ofList, escape_withoutReturns hentity rfl]

theorem escapeProperty_withoutReturns (value : String) :
    escapeProperty (withoutReturns value) = withoutReturns (escapeProperty value) := by
  have hentity : ∀ c, c ≠ '\r' → '\r' ∉ propertyEntity c := by
    intro c hc
    have h : '\r' ∉ [c].flatMap propertyEntity :=
      return_notMem_propertyEntity (by simpa using Ne.symm hc)
    simpa using h
  simp only [escapeProperty, withoutReturns, String.toList_ofList,
    escape_withoutReturns hentity rfl]

section Values

variable {value : String} {r : Renderer}

theorem prints_text (hd : '$' ∉ value.toList) (hp : Unpaired value.toList) (hr : r.Escapes)
    (w : Writer) (indent : Nat) :
    w.Prints r indent (w.text indent value)
    (withoutReturns (w.buffer.pending ++ escapeText value)) := by
  unfold Writer.text
  split
  · have hprinted := printed?_escapeText (r := r) (literalValue?_expression hd hp)
    have h := Writer.prints_line hprinted indent w ""
    rw [hr.text, escapeText_withoutReturns, Writer.literal_empty, ← withoutReturns_append,
      ← withoutReturns_append, String.append_empty] at h
    exact h
  · exact w.prints_literal r indent (escapeText value)

theorem prints_property (hd : '$' ∉ value.toList) (hp : Unpaired value.toList) (hr : r.Escapes)
    (w : Writer) (indent : Nat) {name : String} (hn : name ≠ spreadProperty) (options : Options)
    (faultAt : Cause → Fault) :
    ∃ v, w.property options indent faultAt (name, .text value) = .ok v ∧
      w.Prints r indent v
        (withoutReturns (w.buffer.pending ++
          (" " ++ name ++ "=\"" ++ (escapeProperty value ++ "\"")))) := by
  simp only [Writer.property, if_neg hn]
  refine ⟨_, rfl, ?_⟩
  split
  · have hprinted := printed?_escapeProperty (r := r) (literalValue?_expression hd hp)
    have h := Writer.prints_line hprinted indent (w.literal (" " ++ name ++ "=\"")) "\""
    have hmarkup : (w.literal (" " ++ name ++ "=\"")).buffer.pending ++ escapeProperty value ++
        "\"" =
        w.buffer.pending ++ (" " ++ name ++ "=\"" ++ (escapeProperty value ++ "\"")) := by
      simp only [Writer.literal, LiteralBuffer.push, String.append_assoc]
    rw [hr.property, escapeProperty_withoutReturns, ← withoutReturns_append,
      ← withoutReturns_append, hmarkup] at h
    exact h
  · rw [Writer.literal_literal, Writer.literal_literal]
    exact w.prints_literal r indent _

end Values

/-- A value that has neither a dollar sign nor code between braces is a literal, and it prints what
it would print if it had been written with the static markup around it. -/
theorem expression_prints_static {value : String} (hd : '$' ∉ value.toList)
    (hp : Unpaired value.toList) {r : Renderer} (hr : r.Escapes) :
    literalValue? (expression value) = some (withoutReturns value) ∧
      ∀ (w : Writer) (indent : Nat),
        (∃ out, w.Prints r indent (w.text indent value) out ∧
          w.Prints r indent (w.literal (escapeText value)) out) ∧
        ∀ name ≠ spreadProperty, ∀ (options : Options) (faultAt : Cause → Fault),
          ∃ v out, w.property options indent faultAt (name, .text value) = .ok v ∧
            w.Prints r indent v out ∧
            w.Prints r indent
              (((w.literal (" " ++ name ++ "=\"")).literal
                (escapeProperty value)).literal "\"") out := by
  refine ⟨literalValue?_expression hd hp, fun w indent => ⟨?_, ?_⟩⟩
  · exact ⟨_, prints_text hd hp hr w indent, w.prints_literal r indent (escapeText value)⟩
  · intro name hn options faultAt
    obtain ⟨v, hv, hprints⟩ := prints_property hd hp hr w indent hn options faultAt
    refine ⟨v, _, hv, hprints, ?_⟩
    rw [Writer.literal_literal, Writer.literal_literal]
    exact w.prints_literal r indent _

def brace : String := "it's \x7b \"x\" \\ \x7b\x7b\r\n"

/-- A brace sends the value to the renderer, an opener without a closer does not make code of it. -/
theorem expression_prints_static_brace :
    mayHoldCode brace = true ∧ '$' ∉ brace.toList ∧ Unpaired brace.toList ∧
      Renderer.Escapes ⟨escapeText, escapeProperty⟩ ∧ "title" ≠ spreadProperty ∧
      literalValue? (expression brace) = some "it's \x7b \"x\" \\ \x7b\x7b\n" ∧
      ∀ (options : Options) (faultAt : Cause → Fault), ∃ v out,
        (Writer.literal {} "<p").property options 1 faultAt ("title", .text brace) = .ok v ∧
          (Writer.literal {} "<p").Prints ⟨escapeText, escapeProperty⟩ 1 v out := by
  have hdollar : '$' ∉ brace.toList := by decide
  have hunpaired : Unpaired brace.toList := unpaired_of_count (.inr (by decide))
  have hescapes : Renderer.Escapes ⟨escapeText, escapeProperty⟩ := ⟨fun _ => rfl, fun _ => rfl⟩
  have hname : "title" ≠ spreadProperty := by decide
  obtain ⟨hvalue, hprints⟩ := expression_prints_static hdollar hunpaired hescapes
  refine ⟨by decide, hdollar, hunpaired, hescapes, hname,
    by simpa [withoutReturns, brace] using hvalue, ?_⟩
  intro options faultAt
  obtain ⟨v, out, hv, hdynamic, -⟩ :=
    (hprints (Writer.literal {} "<p") 1).2 "title" hname options faultAt
  exact ⟨v, out, hv, hdynamic⟩

end TemplateCompiler.Code
