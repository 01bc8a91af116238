import TemplateCompiler.Code.RenderFunction
import TemplateCompiler.Proofs.Directive.Conservation
import TemplateCompiler.Proofs.Markup.Reading

/-! # Templates without code

A tree that has neither directives nor code stands for texts and elements only. Written out again
these entries are a tree with the same elements: a draft drops and merges layout, and nothing else.
-/
namespace TemplateCompiler.Directive
open Markup Host
open Code (spreadProperty)

def isStaticNode : Node → Bool
  | .text content _ => !mayHoldCode content
  | .doctype .. => true
  | .tag name properties _ _ =>
    name ≠ directiveTag &&
      properties.toList.all fun (name, value) =>
        name ≠ spreadProperty && value.asText?.all (!mayHoldCode ·)

structure IsStaticProperty (e : String × Value) : Prop where
  writable : IsWritable e
  no_spread : e.1 ≠ spreadProperty
  no_code : ∀ content, e.2 = .text content → mayHoldCode content = false
  no_return : PropertyAvoids '\r' e

/-- Entries that are written out inside `depth` open elements. -/
inductive Static : Nat → Entry → Prop
  | text {depth : Nat} {content : String} (hc : mayHoldCode content = false)
    (hr : '\r' ∉ content.toList) :
    Static depth (.text content)
  | void {depth : Nat} {tag : String} {properties : Properties} {position : Position}
    (hname : IsTagName tag.toList) (hr : '\r' ∉ tag.toList) (hv : isVoid tag = true)
    (hp : ∀ e ∈ properties.toList, IsStaticProperty e) :
      Static depth (.element tag properties [] position)
  | element {depth : Nat} {tag : String} {properties : Properties} {children : List Entry}
    {position : Position} (hname : IsTagName tag.toList) (hr : '\r' ∉ tag.toList)
    (hv : isVoid tag = false) (hp : ∀ e ∈ properties.toList, IsStaticProperty e)
    (hd : depth < maxDepth)
    (hi : ∀ e ∈ children, Static (depth + 1) e) :
      Static depth (.element tag properties children position)

/-! ## What is echoed -/

/-- Only some properties are written without a value. -/
def echoedProperty (options : Options) : String × Value → String × Value
  | (name, .flag) => if options.isBooleanAttribute name then (name, .flag) else (name, .text "")
  | property => property

theorem echoedProperty_fst (options : Options) (e : String × Value) :
    (echoedProperty options e).1 = e.1 := by
  obtain ⟨name, value⟩ := e
  cases value with
  | flag =>
    rw [echoedProperty]
    split <;> rfl
  | text content => rfl
  | null => rfl

def echoedProperties (options : Options) (properties : Properties) : Properties where
  entries := properties.entries.map (echoedProperty options)
  distinct := by
    have hnames : (properties.entries.map (echoedProperty options)).map Prod.fst =
        properties.entries.map Prod.fst := by
      rw [List.map_map]
      exact List.map_congr_left fun e _ => echoedProperty_fst options e
    rw [hnames]
    exact properties.distinct

mutual
def Entry.echoed (options : Options) : Entry → Node
  | .text content => .text (escapeText content) .start
  | .element tag properties children position =>
    .tag tag (echoedProperties options properties) (echoedAll options children) position
  | _ => .text "" .start

def echoedAll (options : Options) : List Entry → List Node
  | [] => []
  | e :: rest => e.echoed options :: echoedAll options rest
end

theorem echoedAll_append (options : Options) (entries more : List Entry) :
    echoedAll options (entries ++ more) = echoedAll options entries ++ echoedAll options more := by
  induction entries with
  | nil => rfl
  | cons e rest ih => rw [List.cons_append, echoedAll, echoedAll, ih, List.cons_append]

theorem lt_notMem_escapeText (content : String) : '<' ∉ (escapeText content).toList := by
  intro h
  rw [escapeText, String.toList_ofList] at h
  obtain ⟨c, -, hc⟩ := List.mem_flatMap.1 h
  unfold textEntity at hc
  split at hc
  · revert hc; decide
  · revert hc; decide
  · revert hc; decide
  · next hlt _ => exact hlt (List.mem_singleton.1 hc).symm

theorem IsStaticProperty.isWritable_echoed {options : Options} {e : String × Value}
    (h : IsStaticProperty e) :
    IsWritable (echoedProperty options e) := by
  refine ⟨?_, ?_⟩
  · rw [echoedProperty_fst]
    exact h.writable.1
  · have hvalue := h.writable.2
    obtain ⟨name, value⟩ := e
    cases value with
    | flag =>
      rw [echoedProperty]
      split <;> simp
    | text content => simp [echoedProperty]
    | null => exact absurd rfl hvalue

theorem isWritable_echoedProperties {options : Options} {properties : Properties}
    (h : ∀ e ∈ properties.toList, IsStaticProperty e) :
    ∀ e ∈ (echoedProperties options properties).toList, IsWritable e := by
  intro e he
  obtain ⟨f, hf, rfl⟩ := List.mem_map.1 he
  exact (h f hf).isWritable_echoed

theorem writable_of_forall {options : Options} {depth : Nat} {entries : List Entry}
    (h : ∀ e ∈ entries, ∀ first rest, Writable false depth rest →
      Writable first depth (e.echoed options :: rest))
    (first : Bool) : Writable first depth (echoedAll options entries) := by
  induction entries generalizing first with
  | nil => exact .nil
  | cons e rest ih =>
    obtain ⟨he, hrest⟩ := List.forall_mem_cons.1 h
    exact he first _ (ih hrest false)

theorem Static.writable {options : Options} {depth : Nat} {e : Entry} (h : Static depth e)
    (first : Bool) (rest : List Node) (hrest : Writable false depth rest) :
    Writable first depth (e.echoed options :: rest) := by
  induction h generalizing first rest with
  | text hc hr => exact .text (lt_notMem_escapeText _) hrest
  | void hname hr hv hp => exact .void hname hv (isWritable_echoedProperties hp) hrest
  | element hname hr hv hp hd hi ih =>
    exact .element hname hv (isWritable_echoedProperties hp) hd (writable_of_forall ih false) hrest

/-- Entries without code are written as a tree that can be written. -/
theorem writable_echoedAll {options : Options} {depth : Nat} {entries : List Entry} (first : Bool)
    (h : ∀ e ∈ entries, Static depth e) : Writable first depth (echoedAll options entries) :=
  writable_of_forall (fun e he => (h e he).writable) first

/-! ## Carriage returns -/

theorem return_notMem_textEntity {text : List Char} (h : '\r' ∉ text) :
    '\r' ∉ text.flatMap textEntity := by
  intro hm
  obtain ⟨c, hc, hm⟩ := List.mem_flatMap.1 hm
  unfold textEntity at hm
  split at hm
  · revert hm; decide
  · revert hm; decide
  · revert hm; decide
  · exact h (List.mem_singleton.1 hm ▸ hc)

theorem return_notMem_propertyEntity {text : List Char} (h : '\r' ∉ text) :
    '\r' ∉ text.flatMap propertyEntity := by
  intro hm
  obtain ⟨c, hc, hm⟩ := List.mem_flatMap.1 hm
  unfold propertyEntity at hm
  split at hm
  · revert hm; decide
  · revert hm; decide
  · exact return_notMem_textEntity h (List.mem_flatMap.2 ⟨c, hc, hm⟩)

theorem IsStaticProperty.return_notMem {options : Options} {e : String × Value}
    (h : IsStaticProperty e) :
    '\r' ∉ (writtenProperty (echoedProperty options e)).toList := by
  obtain ⟨hname, hvalue⟩ := h.no_return
  obtain ⟨name, value⟩ := e
  cases value with
  | null => simp [echoedProperty, writtenProperty]
  | flag =>
    rw [echoedProperty]
    split
    · simpa [writtenProperty] using hname
    · simpa [writtenProperty, escapeProperty] using hname
  | text content =>
    have hcontent := return_notMem_propertyEntity (hvalue content rfl)
    simpa [echoedProperty, writtenProperty, escapeProperty, -List.mem_flatMap] using
      ⟨hname, hcontent⟩

theorem return_notMem_writtenTag {options : Options} {tag : String} {properties : Properties}
    (hr : '\r' ∉ tag.toList) (hp : ∀ e ∈ properties.toList, IsStaticProperty e) :
    '\r' ∉ (writtenTag tag (echoedProperties options properties)).toList := by
  have hproperties :
      '\r' ∉ (String.join
        ((echoedProperties options properties).toList.map writtenProperty)).toList := by
    rw [String.toList_join]
    intro hm
    obtain ⟨text, htext, hm⟩ := List.mem_flatMap.1 hm
    obtain ⟨f, hf, rfl⟩ := List.mem_map.1 htext
    obtain ⟨e, he, rfl⟩ := List.mem_map.1 hf
    exact (hp e he).return_notMem hm
  simpa [writtenTag, -String.toList_join] using ⟨hr, hproperties⟩

theorem return_notMem_of_forall {options : Options} {entries : List Entry}
    (h : ∀ e ∈ entries, '\r' ∉ (writeNode (e.echoed options)).toList) :
    '\r' ∉ (write (echoedAll options entries)).toList := by
  induction entries with
  | nil => simp [echoedAll]
  | cons e rest ih =>
    obtain ⟨he, hrest⟩ := List.forall_mem_cons.1 h
    simpa [echoedAll, write] using ⟨he, ih hrest⟩

theorem Static.return_notMem {options : Options} {depth : Nat} {e : Entry} (h : Static depth e) :
    '\r' ∉ (writeNode (e.echoed options)).toList := by
  induction h with
  | text hc hr => simpa [Entry.echoed, writeNode, escapeText] using return_notMem_textEntity hr
  | void hname hr hv hp => simpa [Entry.echoed, writeNode, hv] using return_notMem_writtenTag hr hp
  | element hname hr hv hp hd hi ih =>
    simpa [Entry.echoed, writeNode, hv] using
      ⟨return_notMem_writtenTag hr hp, return_notMem_of_forall ih, hr⟩

theorem return_notMem_write {options : Options} {depth : Nat} {entries : List Entry}
    (h : ∀ e ∈ entries, Static depth e) : '\r' ∉ (write (echoedAll options entries)).toList :=
  return_notMem_of_forall fun e he => (h e he).return_notMem

/-! ## From the tree to the entries -/

namespace Draft

variable {options : Options} {change : String × Value → String × Value} {depth : Nat} {d : Draft}

def outlines (options : Options) (change : String × Value → String × Value) (d : Draft) :
    List Outline :=
  Markup.outlines change (echoedAll options d.body)

theorem outlines_push (d : Draft) (e : Entry) :
    (d.push e).outlines options change =
      d.outlines options change ++ Markup.outlines change [e.echoed options] := by
  have hbody : (d.push e).body = d.body ++ [e] := by simp [body, push]
  rw [outlines, hbody, echoedAll_append, outlines_append]
  rfl

theorem outlines_dropBlank (d : Draft) :
    d.dropBlank.outlines options change = d.outlines options change := by
  have hbody : ∀ d : Draft, d.body = d.entries.reverse := fun _ => rfl
  rw [outlines, outlines, hbody, hbody, dropBlank_entries]
  cases he : d.entries with
  | nil => rfl
  | cons last rest =>
    cases hb : last.isBlank with
    | false => rw [visible_cons_of_not_blank hb]
    | true =>
      cases last with
      | text content =>
        rw [visible_cons_of_blank hb, List.reverse_cons, echoedAll_append, outlines_append]
        simp [echoedAll, Entry.echoed]
      | _ => cases hb

theorem addText_static (options : Options) (change : String × Value → String × Value)
    (hd : ∀ e ∈ d.entries, Static depth e) {content : String}
    (hc : mayHoldCode content = false) (hr : '\r' ∉ content.toList) :
    (∀ e ∈ (d.addText content).entries, Static depth e) ∧
      (d.addText content).outlines options change = d.outlines options change := by
  have hvisible : ∀ e ∈ visible d.entries, Static depth e := fun e he =>
    hd e ((visible_suffix d.entries).subset he)
  have hspace : Static depth (.text " ") := .text (by decide) (by decide)
  rcases d.addText_cases content with ⟨-, ht⟩ | ⟨-, -, ht⟩ | ⟨-, ht⟩
  · rw [ht]
    exact ⟨hd, rfl⟩
  · rw [ht]
    refine ⟨List.forall_mem_cons.2 ⟨hspace, dropBlank_entries d ▸ hvisible⟩, ?_⟩
    simp [outlines_push, outlines_dropBlank, Entry.echoed]
  · rw [ht]
    refine ⟨List.forall_mem_cons.2 ⟨.text hc hr, hd⟩, ?_⟩
    simp [outlines_push, Entry.echoed]

theorem isStaticProperty_of_node {name : String} {properties : Properties} {children : List Node}
    {p : Position} (hs : isStaticNode (.tag name properties children p) = true)
    (hr : (Node.tag name properties children p).Avoids '\r')
    (hw : ∀ e ∈ properties.toList, IsWritable e) : ∀ e ∈ properties.toList, IsStaticProperty e := by
  intro e he
  simp only [isStaticNode, Bool.and_eq_true, List.all_eq_true] at hs
  have hproperty := hs.2 e he
  obtain ⟨n, value⟩ := e
  simp only [decide_eq_true_eq] at hproperty
  refine ⟨hw _ he, hproperty.1, ?_, hr.2 _ he⟩
  rintro content rfl
  simpa [Value.asText?] using hproperty.2

theorem ne_directiveTag_of_static {name : String} {properties : Properties} {children : List Node}
    {p : Position} (hs : isStaticNode (.tag name properties children p) = true) :
    name ≠ directiveTag := by
  simp only [isStaticNode, Bool.and_eq_true, decide_eq_true_eq] at hs
  exact hs.1

theorem addAll_static {first : Bool} {nodes : List Node} (hw : Writable first depth nodes)
    (hs : ∀ n ∈ allNodes nodes, isStaticNode n = true ∧ n.Avoids '\r') {d : Draft}
    (hd : ∀ e ∈ d.entries, Static depth e) :
    ∃ d', d.addAll nodes = .ok d' ∧ (∀ e ∈ d'.entries, Static depth e) ∧ d'.uses = d.uses ∧
      d'.doctype = (doctypes nodes).getLast?.or d.doctype ∧
      d'.outlines options change = d.outlines options change ++
        Markup.outlines (fun e => change (echoedProperty options e)) nodes := by
  -- along the tree, since its elements bound the depth of the entries; `d` is the draft so far
  induction hw generalizing d with
  | nil => exact ⟨d, rfl, hd, rfl, rfl, (List.append_nil _).symm⟩
  | @text _ _ content p rest ht _ ih =>
    obtain ⟨⟨hstatic, hr⟩, hrest⟩ := List.forall_mem_cons.1 hs
    obtain ⟨hentries, houtlines⟩ := addText_static options change hd
      (by simpa [isStaticNode] using hstatic) hr
    obtain ⟨d', h, hd', huses, hdoctype, houtlines'⟩ := ih hrest hentries
    refine ⟨d', h, hd', huses.trans (uses_addText d content), ?_, ?_⟩
    · rw [hdoctype, doctype_addText, doctypes_text]
    · rw [houtlines', houtlines, outlines_text]
  | @doctype _ _ inside p rest hf _ _ _ ih =>
    obtain ⟨-, hrest⟩ := List.forall_mem_cons.1 hs
    obtain ⟨d', h, hd', huses, hdoctype, houtlines⟩ :=
      ih (d := { d with doctype := some (String.ofList (['<', '!'] ++ inside ++ ['>'])) }) hrest hd
    refine ⟨d', h, hd', huses, ?_, houtlines⟩
    rw [hdoctype, doctypes_doctype, List.getLast?_cons]
    cases (doctypes rest).getLast? <;> rfl
  | @void _ depth name properties p rest hname hv hp _ ih =>
    obtain ⟨⟨hstatic, hr⟩, hrest⟩ := List.forall_mem_cons.1 hs
    have hdirective := ne_directiveTag_of_static hstatic
    have hproperties := isStaticProperty_of_node hstatic hr hp
    let e : Entry := .element name properties [] p
    have hinner : d.nested.addAll [] = .ok d.nested := rfl
    have hadd : d.add (.tag name properties [] p) = .ok (d.push e) :=
      (Added.element hdirective hinner).add_eq_ok
    obtain ⟨d', h, hd', huses, hdoctype, houtlines⟩ :=
      ih (fun n hn => hrest n (List.mem_append_right _ hn))
      (d := d.push e) (List.forall_mem_cons.2 ⟨.void hname hr.1 hv hproperties, hd⟩)
    refine ⟨d', bind_eq_ok.2 ⟨_, hadd, h⟩, hd', huses, ?_, ?_⟩
    · rw [hdoctype, doctypes_tag]
      rfl
    · rw [houtlines, outlines_push, outlines_tag, List.append_assoc]
      simp [e, Entry.echoed, echoedAll, echoedProperties, Properties.toList]
  | @element _ depth name properties children rest p hname hv hp hdepth _ _ ihi ih =>
    obtain ⟨⟨hstatic, hr⟩, hbelow⟩ := List.forall_mem_cons.1 hs
    obtain ⟨hchildren, hrest⟩ := List.forall_mem_append.1 hbelow
    have hdirective := ne_directiveTag_of_static hstatic
    have hproperties := isStaticProperty_of_node hstatic hr hp
    obtain ⟨inner, hi, hinner, husesi, hdoctypei, houtlinesi⟩ :=
      ihi hchildren (d := d.nested) (by simp [nested])
    let e : Entry := .element name properties inner.body p
    have he : Static depth e :=
      .element hname hr.1 hv hproperties hdepth fun e he => hinner e (List.mem_reverse.1 he)
    obtain ⟨d', h, hd', huses, hdoctype, houtlines⟩ := ih hrest (d := inner.resume d e)
      (List.forall_mem_cons.2 ⟨he, hd⟩)
    have hresume : (inner.resume d e).outlines options change =
        (d.push e).outlines options change := rfl
    have hempty : d.nested.outlines options change = [] := rfl
    rw [hempty, List.nil_append] at houtlinesi
    refine ⟨d', bind_eq_ok.2 ⟨_, (Added.element hdirective hi).add_eq_ok, h⟩, hd',
      huses.trans husesi, ?_, ?_⟩
    · have hkept : (inner.resume d e).doctype = (doctypes children).getLast?.or d.doctype :=
        hdoctypei
      rw [hdoctype, hkept, doctypes_tag, List.getLast?_append, Option.or_assoc]
    · rw [houtlines, hresume, outlines_push, outlines_tag, List.append_assoc, ← houtlinesi]
      simp [e, Entry.echoed, echoedProperties, Properties.toList, outlines]

end Draft

/-- A tree without directives and code stands for a template of entries without code. -/
theorem exists_template_static {first : Bool} {depth : Nat} {nodes : List Node}
    (hw : Writable first depth nodes)
    (hs : ∀ n ∈ allNodes nodes, isStaticNode n = true ∧ n.Avoids '\r') (options : Options)
    (change : String × Value → String × Value) :
    ∃ template, Template.ofNodes nodes = .ok template ∧ (∀ e ∈ template.body, Static depth e) ∧
      template.uses = [] ∧ template.doctype = (doctypes nodes).getLast? ∧
      outlines change (echoedAll options template.body) =
        outlines (fun e => change (echoedProperty options e)) nodes := by
  obtain ⟨d, hd, hentries, huses, hdoctype, houtlines⟩ :=
    Draft.addAll_static (d := {}) hw hs (by simp)
  refine ⟨⟨d.body, d.uses, d.doctype⟩, ?_, ?_, huses, ?_, houtlines⟩
  · rw [Template.ofNodes, hd]
    rfl
  · exact fun e he => hentries e (List.mem_reverse.1 he)
  · rw [hdoctype]
    exact Option.or_none

end TemplateCompiler.Directive
