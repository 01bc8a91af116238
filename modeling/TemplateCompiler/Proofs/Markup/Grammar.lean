import TemplateCompiler.Proofs.Markup.Construct

/-! # The grammar of documents

`Content` is the grammar: a sequence of layout runs, comments, texts, tags and elements, with
a doctype before everything but comments. `Reader.Closes` extends it to a reader in the
middle of a document. A step leads from a reader that closes to one that closes, and back,
so `parse` accepts exactly the documents of the grammar and gives the nodes it assigns.
-/
namespace TemplateCompiler.Markup
open Text
open Construct (Written)

/-- `Content first depth p text nodes`: inside `depth` open elements the text, which stands at `p`,
is a content with these nodes. `first` says that no node stands before it in the document. -/
inductive Content : Bool → Nat → Position → List Char → List Node → Prop where
  | nil {first : Bool} {depth : Nat} {p : Position} : Content first depth p [] []
  | layout {first : Bool} {depth : Nat} {p : Position} {t rest : List Char} {nodes : List Node}
      (ht : Written .layout t rest) (h : Content false depth (p.after t) rest nodes) :
      Content first depth p (t ++ rest) (.text " " p :: nodes)
  | comment {first : Bool} {depth : Nat} {p : Position} {t rest : List Char} {nodes : List Node}
      (ht : Written .comment t rest) (h : Content first depth (p.after t) rest nodes) :
      Content first depth p (t ++ rest) nodes
  | text {first : Bool} {depth : Nat} {p : Position} {content : String} {t rest : List Char}
      {nodes : List Node} (ht : Written (.text content) t rest)
      (h : Content false depth (p.after t) rest nodes) :
      Content first depth p (t ++ rest) (.text content p :: nodes)
  | single {first : Bool} {depth : Nat} {p : Position} {name : String} {properties : Properties}
      {t rest : List Char} {nodes : List Node} (ht : Written (.single name properties) t rest)
      (h : Content false depth (p.after t) rest nodes) :
      Content first depth p (t ++ rest) (.tag name properties [] p :: nodes)
  | element {first : Bool} {depth : Nat} {p : Position} {name : String} {properties : Properties}
      {o inner c rest : List Char} {children nodes : List Node}
      (ho : Written (.opener name properties) o (inner ++ (c ++ rest))) (hd : depth < maxDepth)
      (hi : Content false (depth + 1) (p.after o) inner children)
      (hc : Written (.closer name) c rest)
      (h : Content false depth (p.after (o ++ inner ++ c)) rest nodes) :
      Content first depth p (o ++ (inner ++ (c ++ rest))) (.tag name properties children p :: nodes)
  | doctype {first : Bool} {depth : Nat} {p : Position} {literal : String} {t rest : List Char}
      {nodes : List Node} (ht : Written (.doctype literal) t rest) (hf : first = true)
      (h : Content false depth (p.after t) rest nodes) :
      Content first depth p (t ++ rest) (.doctype literal p :: nodes)

theorem Content.eq_nil {first : Bool} {depth : Nat} {p : Position} {text : List Char}
    {nodes : List Node} (h : Content first depth p text nodes) (ht : text = []) : nodes = [] := by
  cases h with
  | nil => rfl
  | layout hk | comment hk | text hk | single hk | element hk | doctype hk =>
    exact absurd (List.append_eq_nil_iff.1 ht).1 hk.ne_nil

def Document (source : String) (nodes : List Node) : Prop :=
  Content true 0 .start source.toList nodes

/-- The text ends the open elements, the innermost first, and the document then has these nodes. -/
def Ends (nodes : List Node) : List OpenElement → List Node → Position → List Char → Prop
  | [], siblings, _, text => text = [] ∧ nodes = siblings.reverse
  | e :: outer, siblings, p, text =>
    ∃ c inner tail more, text = c ++ (inner ++ tail) ∧ Written (.closer e.name) c (inner ++ tail) ∧
      Content false outer.length (p.after c) inner more ∧
      Ends nodes outer (more.reverse ++ e.close siblings :: e.before) (p.after (c ++ inner)) tail

theorem Ends.head {nodes siblings : List Node} {enclosing : List OpenElement} {p : Position}
    {text : List Char} (h : Ends nodes enclosing siblings p text) : ∀ x ∈ text.head?, x = '<' := by
  cases enclosing with
  | nil =>
    obtain ⟨rfl, _⟩ := h
    simp
  | cons e outer =>
    obtain ⟨c, inner, tail, more, rfl, hc, _⟩ := h
    cases hc
    simp

namespace Reader
variable {r s : Reader} {nodes : List Node}

/-- The text ahead continues the innermost open element and ends all of them. -/
def Closes (r : Reader) (nodes : List Node) : Prop :=
  ∃ inner tail more, r.cursor.rest = inner ++ tail ∧
    Content r.isFresh r.depth r.cursor.position inner more ∧
    Ends nodes r.enclosing (more.reverse ++ r.siblings) (r.cursor.position.after inner) tail

theorem isFresh_add (r : Reader) (node : Node) (c : Cursor) : (r.add node c).isFresh = false := by
  simp [isFresh, add]

theorem closes_iff_finish (hr : r.cursor.rest = []) : r.Closes nodes ↔ r.finish = .ok nodes := by
  obtain ⟨c, siblings, enclosing⟩ := r
  constructor
  · rintro ⟨inner, tail, more, ht, hc, he⟩
    obtain ⟨rfl, rfl⟩ := List.append_eq_nil_iff.1 (ht.symm.trans hr)
    obtain rfl := hc.eq_nil rfl
    cases enclosing with
    | nil => exact congrArg Except.ok he.2.symm
    | cons e outer =>
      obtain ⟨c, inner, tail, more, ht, hc, _⟩ := he
      exact absurd (List.append_eq_nil_iff.1 ht.symm).1 hc.ne_nil
  · intro h
    cases enclosing with
    | nil =>
      exact ⟨[], [], [], hr, .nil, rfl, (Except.ok.inj h).symm⟩
    | cons e outer => cases h

/-! ## Back over a construct -/

theorem closes_of_add {t : List Char} {node : Node} {c : Cursor} (hr : r.cursor.Reads t c)
    (hcons : ∀ {inner tail more}, c.rest = inner ++ tail →
      Content false r.depth (r.cursor.position.after t) inner more →
      Content r.isFresh r.depth r.cursor.position (t ++ inner) (node :: more))
    (h : (r.add node c).Closes nodes) : r.Closes nodes := by
  obtain ⟨inner, tail, more, ht, hc, he⟩ := h
  rw [isFresh_add] at hc
  have hp : c.position = r.cursor.position.after t := hr.2
  refine ⟨t ++ inner, tail, node :: more, ?_, hcons ht (hp ▸ hc), ?_⟩
  · rw [hr.1, show c.rest = inner ++ tail from ht, List.append_assoc]
  · rw [Position.after_append, ← hp]
    simpa [add] using he

theorem closes_of_reads (h : r.ReadsConstruct s) (hs : s.Closes nodes) : r.Closes nodes := by
  obtain ⟨k, t, hk, hr, ht⟩ := h
  cases hk with
  | layout hne hrun hrest =>
    rw [← Option.some.inj ht] at hs
    refine closes_of_add hr (fun hcr hc => .layout ?_ hc) hs
    have hk := Written.layout hne hrun hrest
    rw [hcr] at hk
    exact hk.restrict
  | comment hbody =>
    obtain ⟨inner, tail, more, hcr, hc, he⟩ := hs
    have hrs : s = { r with cursor := s.cursor } := (Option.some.inj ht).symm
    rw [hrs, hr.2] at hc
    rw [hrs, hr.2, ← Position.after_append] at he
    refine ⟨_, tail, more, ?_, .comment (.comment hbody) hc, he⟩
    rw [hr.1, hcr]
    simp only [List.append_assoc]
  | text hne hcontent hfirst hrest =>
    rw [← Option.some.inj ht] at hs
    refine closes_of_add hr (fun hcr hc => .text ?_ hc) hs
    have hk := Written.text hne hcontent hfirst hrest
    rw [hcr] at hk
    exact hk.restrict
  | doctype hinside hdash =>
    simp only [take?] at ht
    split at ht
    · next hf =>
      rw [← Option.some.inj ht] at hs
      exact closes_of_add hr (fun _ hc => .doctype (.doctype hinside hdash) hf hc) hs
    · cases ht
  | single htag hv =>
    rw [← Option.some.inj ht] at hs
    exact closes_of_add hr (fun _ hc => .single (.single htag hv) hc) hs
  | @opener name properties _ _ htag hv =>
    obtain ⟨c, siblings, enclosing⟩ := s
    simp only [take?] at ht
    split at ht
    · next hd =>
      cases ht
      obtain ⟨inner, tail, more, hcr, hc, cl, inner', tail', more', rfl, hcl, hc', he⟩ := hs
      refine ⟨t ++ (inner ++ (cl ++ inner')), tail', .tag name properties more r.cursor.position ::
        more', ?_, .element (.opener htag hv) hd ?_ (hcl.restrict) ?_, ?_⟩
      · rw [hr.1, hcr]
        simp only [List.append_assoc]
      · exact hr.2 ▸ hc
      · rw [Position.after_append, Position.after_append, ← hr.2]
        exact hc'
      · have hp : c.position = r.cursor.position.after t := hr.2
        simpa [OpenElement.close, Position.after_append, hp] using he
    · cases ht
  | closer hname hv =>
    obtain ⟨c, siblings, enclosing⟩ := s
    simp only [take?] at ht
    split at ht
    · cases ht
    · next e outer hre =>
      split at ht
      · next hen =>
        cases ht
        subst hen
        obtain ⟨inner, tail, more, hcr, hc, he⟩ := hs
        have hf : (⟨c, e.close r.siblings :: e.before, enclosing⟩ : Reader).isFresh = false := by
          simp [isFresh]
        rw [hf, hr.2] at hc
        rw [hr.2, ← Position.after_append] at he
        refine ⟨[], r.cursor.rest, [], rfl, .nil, ?_⟩
        rw [hre]
        exact ⟨_, inner, tail, more, hcr ▸ hr.1, Written.closer hname hv, hc, he⟩
      · cases ht

/-! ## On over a construct -/

theorem closes_add {node : Node} {c : Cursor} {inner tail : List Char} {more : List Node}
    (ht : c.rest = inner ++ tail) (hc : Content false r.depth c.position inner more)
    (he : Ends nodes r.enclosing ((node :: more).reverse ++ r.siblings)
      (c.position.after inner) tail) :
    (r.add node c).Closes nodes := by
  refine ⟨inner, tail, more, ht, ?_, ?_⟩
  · rw [isFresh_add]
    exact hc
  · simpa [add] using he

theorem exists_reads_of_closes (hne : r.cursor.rest ≠ []) (h : r.Closes nodes) :
    ∃ s, r.ReadsConstruct s ∧ s.Closes nodes := by
  obtain ⟨inner, tail, more, ht, hc, he⟩ := h
  have htail := he.head
  have hread : ∀ {t rest : List Char}, r.cursor.rest = t ++ rest →
      r.cursor.Reads t ⟨rest, r.cursor.position.after t⟩ := fun h => ⟨h, rfl⟩
  cases hc with
  | nil =>
    obtain ⟨c, siblings, enclosing⟩ := r
    cases enclosing with
    | nil => exact absurd (ht.trans he.1) hne
    | cons e outer =>
      obtain ⟨c', inner, tail, more, rfl, hk, hc, he⟩ := he
      refine ⟨⟨⟨inner ++ tail, _⟩, e.close siblings :: e.before, outer⟩,
        ⟨.closer e.name, c', hk, hread ht, ?_⟩, ?_⟩
      · simp [take?]
      · refine ⟨inner, tail, more, rfl, ?_, ?_⟩
        · simpa [isFresh, depth] using hc
        · simpa [Position.after_append] using he
  | @layout _ _ _ t rest more hk hc =>
    rw [List.append_assoc] at ht
    rw [Position.after_append] at he
    exact ⟨_, ⟨.layout, t, hk.extend htail, hread ht, rfl⟩, closes_add rfl hc he⟩
  | @comment _ _ _ t rest more hk hc =>
    rw [List.append_assoc] at ht
    rw [Position.after_append] at he
    exact ⟨{ r with cursor := ⟨rest ++ tail, r.cursor.position.after t⟩ },
      ⟨.comment, t, hk.extend htail, hread ht, rfl⟩, rest, tail, more, rfl, hc, he⟩
  | @text _ _ _ content t rest more hk hc =>
    rw [List.append_assoc] at ht
    rw [Position.after_append] at he
    exact ⟨_, ⟨.text content, t, hk.extend htail, hread ht, rfl⟩, closes_add rfl hc he⟩
  | @single _ _ _ name properties t rest more hk hc =>
    rw [List.append_assoc] at ht
    rw [Position.after_append] at he
    exact ⟨_, ⟨.single name properties, t, hk.extend htail, hread ht, rfl⟩, closes_add rfl hc he⟩
  | @doctype _ _ _ literal t rest more hk hf hc =>
    rw [List.append_assoc] at ht
    rw [Position.after_append] at he
    exact ⟨r.add (.doctype literal r.cursor.position) ⟨rest ++ tail, r.cursor.position.after t⟩,
      ⟨.doctype literal, t, hk.extend htail, hread ht, if_pos hf⟩, closes_add rfl hc he⟩
  | @element _ _ _ name properties o inner c rest children more ho hd hi hcl hc =>
    simp only [List.append_assoc] at ht
    refine ⟨⟨⟨inner ++ (c ++ (rest ++ tail)), r.cursor.position.after o⟩, [],
        ⟨name, properties, r.cursor.position, r.siblings⟩ :: r.enclosing⟩,
      ⟨.opener name properties, o, ?_, hread ht, if_pos hd⟩, ?_⟩
    · simpa using ho.extend htail
    · refine ⟨inner, c ++ (rest ++ tail), children, rfl, hi, ?_⟩
      refine ⟨c, rest, tail, more, rfl, hcl.extend htail, ?_, ?_⟩
      · rw [Position.after_append, Position.after_append] at hc
        exact hc
      · simpa [Position.after_append, OpenElement.close] using he

theorem run_eq_ok_iff (r : Reader) (hl : r.Legal) : r.run = .ok nodes ↔ r.Closes nodes := by
  by_cases hr : r.cursor.rest = []
  · rw [run_of_end hr, closes_iff_finish hr]
  · rw [run_eq_ok_iff_step hr]
    constructor
    · rintro ⟨s, hs, h⟩
      have hrs := (step_eq_ok_iff hr hl).1 hs
      have := hrs.length_lt
      exact closes_of_reads hrs ((run_eq_ok_iff s (hrs.legal hl)).1 h)
    · intro h
      obtain ⟨s, hrs, hs⟩ := exists_reads_of_closes hr h
      have := hrs.length_lt
      exact ⟨s, (step_eq_ok_iff hr hl).2 hrs, (run_eq_ok_iff s (hrs.legal hl)).2 hs⟩
termination_by r.cursor.rest.length

end Reader

/-- Exactly the documents of the grammar are accepted, with the nodes that it assigns. -/
theorem parse_eq_ok_iff_document (source : String) (nodes : List Node) :
    parse source = .ok nodes ↔ Document source nodes := by
  have hl : (Reader.ofSource source).Legal := by
    intro e he
    cases he
  rw [parse, Reader.run_eq_ok_iff _ hl]
  constructor
  · rintro ⟨inner, tail, more, ht, hc, rfl, rfl⟩
    have hs : source.toList = inner := ht.trans (List.append_nil inner)
    have hm : (more.reverse ++ (Reader.ofSource source).siblings).reverse = more := by
      simp [Reader.ofSource]
    rw [Document, hs, hm]
    exact hc
  · intro h
    have ht : source.toList = source.toList ++ [] := (List.append_nil _).symm
    have hn : nodes = (nodes.reverse ++ []).reverse := by simp
    exact ⟨source.toList, [], nodes, ht, h, rfl, hn⟩

end TemplateCompiler.Markup
