import TemplateCompiler.Proofs.Directive.Conditional
import TemplateCompiler.Proofs.Markup.Tree

/-! # Content is neither lost nor doubled nor moved

The parts of a document are its visible texts and its ordinary elements, in document order. A
template has the parts of its document, without those inside directives that do not read their
children. A draft gathers them node by node: what it takes back at its end is blank.
-/
namespace TemplateCompiler.Directive
open Markup

inductive Part where
  | text (content : String)
  | element (tag : String) (properties : Properties) (position : Position)

/-- Text is a part unless it is blank. -/
def textPart? (content : String) : Option Part :=
  if Text.isBlank content then none else some (.text content)

/-! ## Parts of a document -/

/-- Whether what stands inside a tag is read; the directives that stand alone do not read it. -/
def readsInside (name : String) (properties : Properties) : Bool :=
  name ≠ directiveTag || !([some .slot, some .raw, some .use].contains (Kind.of? properties))

theorem readsInside_of_kind {properties : Properties} {kind : Kind}
    (hk : Kind.of? properties = some kind) :
    readsInside directiveTag properties = true ↔ kind ∉ [Kind.slot, .raw, .use] := by
  simp [readsInside, hk]

def readNodes (nodes : List Node) : List Node := inOrder readsInside nodes

@[simp]
theorem readNodes_nil : readNodes [] = [] := rfl

theorem readNodes_append (nodes more : List Node) :
    readNodes (nodes ++ more) = readNodes nodes ++ readNodes more :=
  inOrder_append readsInside nodes more

theorem readNodes_text (content : String) (p : Position) :
    readNodes [.text content p] = [.text content p] := rfl

theorem readNodes_tag (name : String) (properties : Properties) (children : List Node)
    (p : Position) :
    readNodes [.tag name properties children p] = .tag name properties children p ::
      if readsInside name properties then readNodes children else [] := by
  simp [readNodes, inOrder, nodeInOrder]

def nodePart? : Node → Option Part
  | .text content _ => textPart? content
  | .tag name properties _ position =>
    if name = directiveTag then none else some (.element name properties position)
  | .doctype .. => none

def nodeUse? : Node → Option String
  | .tag name properties _ _ =>
    if name = directiveTag ∧ Kind.of? properties = some .use then
      (properties.get? Kind.use.property).bind Value.asText?
    else none
  | .text .. | .doctype .. => none

theorem nodeUse?_of_kind {name : String} {properties : Properties} {children : List Node}
    {position : Position} {kind : Kind} (hk : Kind.of? properties = some kind) (h : kind ≠ .use) :
    nodeUse? (.tag name properties children position) = none := by
  simp [nodeUse?, hk, h]

/-! ## Parts of a template -/

mutual
def Entry.inOrder : Entry → List Entry
  | .text content => [.text content]
  | .slot slot => [.slot slot]
  | .raw content => [.raw content]
  | .element tag properties children position =>
    .element tag properties children position :: entriesInOrder children
  | .when condition children => .when condition children :: entriesInOrder children
  | .elseWhen condition children => .elseWhen condition children :: entriesInOrder children
  | .otherwise children => .otherwise children :: entriesInOrder children
  | .forEach head children => .forEach head children :: entriesInOrder children
  | .inclusion file arguments children => .inclusion file arguments children ::
    entriesInOrder children

def entriesInOrder : List Entry → List Entry
  | [] => []
  | e :: rest => e.inOrder ++ entriesInOrder rest
end

theorem Entry.inOrder_eq (e : Entry) : e.inOrder = e :: entriesInOrder e.children := by
  cases e <;> rfl

theorem entriesInOrder_append (entries more : List Entry) :
    entriesInOrder (entries ++ more) = entriesInOrder entries ++ entriesInOrder more := by
  induction entries with
  | nil => rfl
  | cons e rest ih => simp only [List.cons_append, entriesInOrder, ih, List.append_assoc]

def Entry.part? : Entry → Option Part
  | .text content => textPart? content
  | .element tag properties _ position => some (.element tag properties position)
  | _ => none

def parts (entries : List Entry) : List Part := (entriesInOrder entries).filterMap Entry.part?

@[simp]
theorem parts_nil : parts [] = [] := rfl

theorem parts_append (entries more : List Entry) :
    parts (entries ++ more) = parts entries ++ parts more := by
  rw [parts, entriesInOrder_append, List.filterMap_append]
  rfl

theorem parts_singleton (e : Entry) : parts [e] = e.part?.toList ++ parts e.children := by
  have h : entriesInOrder [e] = e :: entriesInOrder e.children := by
    simp [entriesInOrder, Entry.inOrder_eq]
  rw [parts, h, List.filterMap_cons, parts]
  cases e.part? <;> rfl

namespace Draft

variable {d d' inner outer : Draft}

theorem parts_of_blank {e : Entry} (h : e.isBlank = true) : parts [e] = [] := by
  cases e with
  | text content =>
    have hb : Text.isBlank content = true := h
    rw [parts_singleton]
    simp [Entry.part?, textPart?, hb, Entry.children]
  | _ => cases h

theorem parts_visible (entries : List Entry) :
    parts (visible entries).reverse = parts entries.reverse := by
  cases entries with
  | nil => rfl
  | cons last rest =>
    cases hb : last.isBlank with
    | false => rw [visible_cons_of_not_blank hb]
    | true =>
      rw [visible_cons_of_blank hb, List.reverse_cons, parts_append, parts_of_blank hb,
        List.append_nil]

theorem parts_dropBlank (d : Draft) : parts d.dropBlank.body = parts d.body := by
  rw [body, dropBlank_entries, parts_visible, body]

theorem parts_push (d : Draft) (e : Entry) :
    parts (d.push e).body = parts d.body ++ (e.part?.toList ++ parts e.children) := by
  rw [push_body, parts_append, parts_singleton]

theorem parts_addText (d : Draft) (content : String) :
    parts (d.addText content).body = parts d.body ++ (textPart? content).toList := by
  cases hb : Text.isBlank content with
  | true =>
    have hv := visible_addText (d := d) hb
    rw [body, ← parts_visible, hv, parts_visible, body]
    simp [textPart?, hb]
  | false =>
    rw [addText_visible hb, parts_push]
    simp [Entry.part?, Entry.children]

theorem uses_addText (d : Draft) (content : String) : (d.addText content).uses = d.uses := by
  rcases d.addText_cases content with ⟨-, hd⟩ | ⟨-, -, hd⟩ | ⟨-, hd⟩
  · rw [hd]
  · rw [hd, push, dropBlank_eq]
  · rw [hd, push]

theorem doctype_addText (d : Draft) (content : String) :
    (d.addText content).doctype = d.doctype := by
  rcases d.addText_cases content with ⟨-, hd⟩ | ⟨-, -, hd⟩ | ⟨-, hd⟩
  · rw [hd]
  · rw [hd, push, dropBlank_eq]
  · rw [hd, push]

theorem parts_resume (inner outer : Draft) (e : Entry) :
    parts (inner.resume outer e).body = parts outer.body ++ (e.part?.toList ++ parts e.children) :=
  parts_push outer e

/-! ## What a draft gathers -/

/-- `d'` has gathered what the nodes hold behind what `d` had. -/
structure Gathers (d : Draft) (nodes : List Node) (d' : Draft) : Prop where
  parts : parts d'.body = parts d.body ++ (readNodes nodes).filterMap nodePart?
  uses : d'.uses = d.uses ++ (readNodes nodes).filterMap nodeUse?
  doctype : doctypes nodes = [] → d'.doctype = d.doctype

theorem Gathers.refl (d : Draft) : Gathers d [] d := by
  refine ⟨?_, ?_, fun _ => rfl⟩
  · rw [readNodes_nil, List.filterMap_nil, List.append_nil]
  · rw [readNodes_nil, List.filterMap_nil, List.append_nil]

theorem Gathers.trans {nodes more : List Node} {u : Draft} (h : Gathers d nodes u)
    (h' : Gathers u more d') : Gathers d (nodes ++ more) d' := by
  refine ⟨?_, ?_, fun hd => ?_⟩
  · rw [h'.parts, h.parts, readNodes_append, List.filterMap_append, List.append_assoc]
  · rw [h'.uses, h.uses, readNodes_append, List.filterMap_append, List.append_assoc]
  · rw [doctypes_append] at hd
    obtain ⟨hn, hm⟩ := List.append_eq_nil_iff.1 hd
    rw [h'.doctype hm, h.doctype hn]

section Tag

variable {name : String} {properties : Properties} {children : List Node} {position : Position}

theorem Gathers.inside (h : Gathers outer.nested children inner)
    (hr : readsInside name properties = true)
    (hn : nodeUse? (.tag name properties children position) = none)
    (hp : Directive.parts d'.body = Directive.parts d.body ++
      ((nodePart? (.tag name properties children position)).toList ++ Directive.parts inner.body))
    (hu : outer.uses = d.uses ∧ d'.uses = inner.uses)
    (hd : outer.doctype = d.doctype ∧ d'.doctype = inner.doctype) :
    Gathers d [.tag name properties children position] d' := by
  have hread : readNodes [.tag name properties children position] =
      .tag name properties children position :: readNodes children := by
    rw [readNodes_tag, if_pos hr]
  have hinner : Directive.parts inner.body = (readNodes children).filterMap nodePart? := h.parts
  refine ⟨?_, ?_, fun hdoc => ?_⟩
  · rw [hp, hinner, hread, List.filterMap_cons]
    cases nodePart? (.tag name properties children position) <;> rfl
  · have huses : inner.uses = outer.uses ++ (readNodes children).filterMap nodeUse? := h.uses
    rw [hu.2, huses, hu.1, hread, List.filterMap_cons, hn]
  · have hchildren : doctypes children = [] := by simpa using hdoc
    have hkept : inner.doctype = outer.doctype := h.doctype hchildren
    rw [hd.2, hkept, hd.1]

theorem Gathers.outside (hr : readsInside directiveTag properties = true → children = [])
    (hp : Directive.parts d'.body = Directive.parts d.body)
    (hu : d'.uses = d.uses ++ (nodeUse? (.tag directiveTag properties children position)).toList)
    (hd : d'.doctype = d.doctype) :
    Gathers d [.tag directiveTag properties children position] d' := by
  have hread : readNodes [.tag directiveTag properties children position] =
      [.tag directiveTag properties children position] := by
    rw [readNodes_tag]
    split
    · next h => rw [hr h, readNodes_nil]
    · rfl
  refine ⟨?_, ?_, fun _ => hd⟩
  · rw [hp, hread]
    simp [nodePart?]
  · rw [hu, hread, List.filterMap_cons]
    cases nodeUse? (.tag directiveTag properties children position) <;> rfl

end Tag

theorem Added.gathers {node : Node} (ha : Added d node d')
    (hi : ∀ {name properties children position} {outer inner : Draft},
      node = .tag name properties children position → outer.nested.addAll children = .ok inner →
        Gathers outer.nested children inner) :
    Gathers d [node] d' := by
  have hkept := d.parts_dropBlank
  have huses : d.dropBlank.uses = d.uses := by rw [dropBlank_eq]
  have hdoctype : d.dropBlank.doctype = d.doctype := by rw [dropBlank_eq]
  cases ha with
  | text content position =>
    refine ⟨?_, ?_, fun _ => doctype_addText d content⟩
    · rw [parts_addText, readNodes_text, List.filterMap_cons, List.filterMap_nil, nodePart?]
      cases textPart? content <;> rfl
    · rw [uses_addText]
      exact (List.append_nil _).symm
  | doctype literal position =>
    refine ⟨(List.append_nil _).symm, (List.append_nil _).symm, fun h => ?_⟩
    cases h
  | element hn hinner =>
    refine (hi rfl hinner).inside (by simp [readsInside, hn]) (by simp [nodeUse?, hn]) ?_
      ⟨rfl, rfl⟩ ⟨rfl, rfl⟩
    rw [parts_resume, nodePart?, if_neg hn]
    rfl
  | @transparent properties children position inner hk hinner =>
    refine (hi rfl hinner).inside (by simp [readsInside, hk]) (by simp [nodeUse?, hk]) ?_
      ⟨huses, rfl⟩ ⟨hdoctype, rfl⟩
    rw [splice_body, parts_append, hkept]
    rfl
  | @vanished properties position kind hk hv hb =>
    have hkind : kind ≠ .use := by cases hv <;> simp
    refine .outside (fun _ => rfl) hkept ?_ hdoctype
    rw [nodeUse?_of_kind hk hkind, huses]
    exact (List.append_nil _).symm
  | @block properties children position kind inner e hk hc hb hinner hw =>
    have hkind : kind ∉ [.slot, .raw, .use] := by cases hw <;> simp
    have hpart : e.part? = none := by cases hw <;> rfl
    have huse : kind ≠ .use := fun h => hkind (by simp [h])
    refine (hi rfl hinner).inside ((readsInside_of_kind hk).2 hkind) (nodeUse?_of_kind hk huse) ?_
      ⟨huses, rfl⟩ ⟨hdoctype, rfl⟩
    rw [parts_resume, hkept, hpart, hw.children]
    rfl
  | @leaf properties children position kind e hk hs =>
    have hpart : e.part?.toList ++ parts e.children = [] := by cases hs <;> rfl
    refine .outside (fun h => ?_) ?_ ?_ hdoctype
    · refine absurd ((readsInside_of_kind hk).1 h) ?_
      exact fun hn => hn (by cases hs <;> simp)
    · rw [parts_push, hpart, List.append_nil, hkept]
    · rw [nodeUse?_of_kind hk (by cases hs <;> simp)]
      exact huses.trans (List.append_nil _).symm
  | @use properties children position declaration hk hv =>
    refine .outside (fun h => ?_) hkept ?_ hdoctype
    · exact absurd ((readsInside_of_kind hk).1 h) (by simp)
    · simp [nodeUse?, hk, hv, huses, Value.asText?]

theorem gathers_of_addAll (nodes : List Node) {d d' : Draft} (h : d.addAll nodes = .ok d') :
    Gathers d nodes d' := by
  replace h := addedAll_of_addAll h
  induction h with
  | nil d => exact .refl d
  | cons hnode _ _ ihi ih => exact (hnode.gathers ihi).trans ih

end Draft

/-- A template has the visible texts and the ordinary elements of its document that are read,
its import declarations, and its doctype, of which there is one at most. -/
theorem template_keeps_parts {source : String} {nodes : List Node} {template : Template}
    (hn : parse source = .ok nodes) (ht : Template.ofNodes nodes = .ok template) :
    parts template.body = (readNodes nodes).filterMap nodePart? ∧
      template.uses = (readNodes nodes).filterMap nodeUse? ∧
      template.doctype.toList = doctypes nodes := by
  obtain ⟨d, hd, ht⟩ := bind_eq_ok.1 ht
  cases ht
  have hgathers := Draft.gathers_of_addAll nodes hd
  refine ⟨hgathers.parts, hgathers.uses, ?_⟩
  rcases (document_of_parse hn).doctypes_eq with hnone | ⟨-, literal, q, rest, rfl, hrest⟩
  · have hdoctype : d.doctype = none := hgathers.doctype hnone
    rw [hnone, hdoctype]
    rfl
  · obtain ⟨u, hu, hd⟩ := bind_eq_ok.1 hd
    cases hu
    have hdoctype : d.doctype = some literal := (Draft.gathers_of_addAll rest hd).doctype hrest
    rw [doctypes_doctype, hrest, hdoctype]
    rfl

def notice : String :=
  "<!x><z use=\"A\"/> <z if=\"$a\"><b>t</b><z><i/></z></z> <z raw=\"r\">no</z>"

def noticeNodes : List Node :=
  [.doctype "<!x>" .start, .tag "z" ⟨[("use", .text "A")], by simp⟩ [] ⟨4, 1, 5⟩,
    .text " " ⟨16, 1, 17⟩, .tag "z" ⟨[("if", .text "$a")], by simp⟩
      [.tag "b" .empty [.text "t" ⟨31, 1, 32⟩] ⟨28, 1, 29⟩,
        .tag "z" .empty [.tag "i" .empty [] ⟨39, 1, 40⟩] ⟨36, 1, 37⟩] ⟨17, 1, 18⟩,
    .text " " ⟨51, 1, 52⟩,
    .tag "z" ⟨[("raw", .text "r")], by simp⟩ [.text "no" ⟨63, 1, 64⟩] ⟨52, 1, 53⟩]

def noticeTemplate : Template :=
  ⟨[.when "$a" [.element "b" .empty [.text "t"] ⟨28, 1, 29⟩, .element "i" .empty [] ⟨39, 1, 40⟩],
    .raw "r"], ["A"], some "<!x>"⟩

/-- What stands in a branch and in a transparent tag is kept, and what stands in `raw` is not. -/
theorem template_keeps_parts_notice :
    parse notice = .ok noticeNodes ∧ Template.ofNodes noticeNodes = .ok noticeTemplate ∧
      (readNodes noticeNodes).filterMap nodePart? =
        [.element "b" .empty ⟨28, 1, 29⟩, .text "t", .element "i" .empty ⟨39, 1, 40⟩] ∧
      parts noticeTemplate.body = (readNodes noticeNodes).filterMap nodePart? ∧
      noticeTemplate.uses = ["A"] ∧ noticeTemplate.doctype.toList = ["<!x>"] := by
  have hn : parse notice = .ok noticeNodes := by with_unfolding_all rfl
  have ht : Template.ofNodes noticeNodes = .ok noticeTemplate := rfl
  obtain ⟨hp, hu, hd⟩ := template_keeps_parts hn ht
  exact ⟨hn, ht, rfl, hp, hu, hd⟩

end TemplateCompiler.Directive
