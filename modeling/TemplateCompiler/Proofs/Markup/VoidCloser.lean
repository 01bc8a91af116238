import TemplateCompiler.Diagnostic.Report
import TemplateCompiler.Proofs.Markup.Place

/-! # Closing tags of void tags

A void tag stays without children, so what follows it is read into the list that it stands in.
Whatever that is, a closing tag with its name is refused behind it, since it would make a child of
it.
-/
namespace TemplateCompiler.Markup
open Text Diagnostic
open Construct (Written)

/-! ## Content among other text -/

/-- Inside `depth` elements every reader gets over the text, if a tag or nothing follows. -/
def Passable (depth : Nat) (text : List Char) : Prop :=
  ∀ (tail : List Char) (p : Position) (siblings : List Node) (enclosing : List OpenElement),
    (∀ c ∈ tail.head?, c = '<') → enclosing.length = depth →
      ∃ more, Reader.Passes ⟨⟨text ++ tail, p⟩, siblings, enclosing⟩
        ⟨⟨tail, p.after text⟩, more ++ siblings, enclosing⟩

theorem passable_nil (depth : Nat) : Passable depth [] := fun _ _ _ _ _ _ => ⟨[], .refl _⟩

section Passable

variable {depth : Nat} {t rest inner o c : List Char}

/-- A construct is read first that adds nodes to the list or none. -/
theorem Passable.behind {k : Construct} (h : Passable depth rest) (hk : Written k t rest)
    (htake : ∀ (r : Reader) (c : Cursor), ∃ nodes,
      r.take? c k = some ⟨c, nodes ++ r.siblings, r.enclosing⟩) :
    Passable depth (t ++ rest) := by
  intro tail p siblings enclosing ht hd
  obtain ⟨nodes, hnodes⟩ :=
    htake ⟨⟨t ++ (rest ++ tail), p⟩, siblings, enclosing⟩ ⟨rest ++ tail, p.after t⟩
  obtain ⟨more, hmore⟩ := h tail (p.after t) (nodes ++ siblings) enclosing ht hd
  refine ⟨more ++ nodes, ?_⟩
  rw [List.append_assoc t, List.append_assoc more, Position.after_append]
  exact .of_written p siblings enclosing (hk.extend ht) hnodes _ hmore

theorem Passable.element {name : String} {properties : Properties} (hi : Passable (depth + 1) inner)
    (h : Passable depth rest) (hd : depth < maxDepth)
    (ho : Written (.opener name properties) o (inner ++ (c ++ rest)))
    (hc : Written (.closer name) c rest) :
    Passable depth (o ++ (inner ++ (c ++ rest))) := by
  intro tail p siblings enclosing ht hlength
  let e : OpenElement := ⟨name, properties, p, siblings⟩
  have hcloser : ∀ x ∈ (c ++ (rest ++ tail)).head?, x = '<' := by
    cases hc with
    | closer hname hv => simp
  obtain ⟨children, hinside⟩ := hi _ (p.after o) [] (e :: enclosing) hcloser (by simp [hlength])
  obtain ⟨more, hmore⟩ :=
    h tail (((p.after o).after inner).after c) (e.close (children ++ []) ::
      siblings) enclosing ht hlength
  refine ⟨more ++ [e.close (children ++ [])], ?_⟩
  simp only [List.append_assoc, Position.after_append]
  refine .of_opener p siblings enclosing (by simpa using ho.extend ht) (hlength ▸ hd) _
    (hinside.trans ?_)
  exact .of_closer _ _ e enclosing (hc.extend ht) _ hmore

end Passable

/-- A content without a doctype is read alike wherever it stands. -/
theorem Content.passable {first : Bool} {depth : Nat} {p : Position} {text : List Char}
    {nodes : List Node} (h : Content first depth p text nodes)
    (hn : first = true → ∀ literal q, Node.doctype literal q ∉ nodes) : Passable depth text := by
  have hlater : ∀ {prop : Prop}, false = true → prop := fun h => absurd h Bool.false_ne_true
  induction h with
  | nil => exact passable_nil _
  | layout hk _ ih | text hk _ ih | single hk _ ih =>
    exact (ih hlater).behind hk fun r c => ⟨[_], rfl⟩
  | comment hk _ ih => exact (ih hn).behind hk fun r c => ⟨[], rfl⟩
  | doctype hk hf _ _ => exact absurd List.mem_cons_self (hn hf _ _)
  | element ho hd _ hc _ ihi ih => exact (ihi hlater).element (ih hlater) hd ho hc

/-! ## The closing tag -/

theorem isTagName_of_isVoid {name : String} (h : isVoid name = true) : IsTagName name.toList := by
  have hall : ∀ name ∈ voidTags, name.toList ≠ [] ∧ name.toList.all isTagNameChar = true ∧
      name.toList.head? ≠ some '!' := by
    decide
  obtain ⟨hne, hchars, hhead⟩ := hall name (List.contains_iff_mem.1 h)
  exact ⟨hne, List.all_eq_true.1 hchars, hhead⟩

theorem Reader.step_of_voidCloser {r : Reader} {name : String} {rest : List Char}
    (hv : isVoid name = true) (hr : r.cursor.rest = ['<', '/'] ++ (name.toList ++ ['>'] ++ rest)) :
    r.step = .error ⟨.voidWithChildren name, r.cursor.position, name ++ ">"⟩ := by
  have hread : r.cursor.Reads ['<', '/'] ⟨_, r.cursor.position.after ['<', '/']⟩ := ⟨hr, rfl⟩
  have hcloser := voidCloser?_of_reads (isTagName_of_isVoid hv)
    (c := ⟨name.toList ++ ['>'] ++ rest, r.cursor.position.after ['<', '/']⟩) (d := ⟨rest, _⟩)
    ⟨rfl, rfl⟩
  have hnear : (name.toList ++ ['>'] ++ rest).take (name.toList.length + 1) =
      (name ++ ">").toList := by
    have hlength : name.toList.length + 1 = (name.toList ++ ['>']).length := by simp
    rw [hlength, List.take_left]
    simp
  rw [step_of_closing hread, closing, hcloser, if_pos hv]
  simp only [Cursor.fault, hnear, String.ofList_toList]

/-- Behind a void tag and any content, the closing tag of the void tag is a structural fault that
names it, at the place where the closing tag stands, whatever follows. -/
theorem parse_voidCloser {name body : String} {attributes : List Char}
    {pairs : List (String × Value)} {nodes : List Node} (hv : isVoid name = true)
    (ha : PropertyList attributes pairs) (hfirst : LayoutFirst attributes)
    (hb : parse body = .ok nodes) (hn : ∀ literal p, Node.doctype literal p ∉ nodes)
    (rest file : String) :
    Report.ofResult file
        (parse ("<" ++ name ++ String.ofList attributes ++ ">" ++ body ++ "</" ++ name ++
          ">" ++ rest)) =
      .error {
        kind := .structural
        message := "Self closing tag <" ++ name ++ "> may not contain children"
        file := file
        line := (Position.behind ("<" ++ name ++ String.ofList attributes ++ ">" ++
          body).toList).line
        column := (Position.behind ("<" ++ name ++ String.ofList attributes ++ ">" ++
          body).toList).column
        near := name ++ ">" } := by
  let tag := ['<'] ++ (name.toList ++ (attributes ++ ['>']))
  let closer := ['<', '/'] ++ (name.toList ++ ['>'] ++ rest.toList)
  have htext : TagText name (.ofList pairs) true tag := .mk (isTagName_of_isVoid hv) hfirst ha rfl
  have htag : Written (.single name (.ofList pairs)) tag (body.toList ++ closer) :=
    .single htext (.inr hv)
  obtain ⟨more, hbody⟩ := ((parse_eq_ok_iff_document body nodes).1 hb).passable (fun _ => hn) closer
    (Position.start.after tag) [.tag name (.ofList pairs) [] .start] [] (by simp [closer]) rfl
  have hpass := Reader.Passes.of_written .start [] [] htag rfl _ hbody
  have hsource : ("<" ++ name ++ String.ofList attributes ++ ">" ++ body ++ "</" ++ name ++ ">" ++
      rest).toList =
      tag ++ (body.toList ++ closer) := by
    simp [tag, closer]
  have hplace : (Position.start.after tag).after body.toList =
      .behind ("<" ++ name ++ String.ofList attributes ++ ">" ++ body).toList := by
    rw [← Position.after_append, Position.after_start]
    simp [tag]
  have hreader : Reader.ofSource
      ("<" ++ name ++ String.ofList attributes ++ ">" ++ body ++ "</" ++ name ++ ">" ++ rest) =
        ⟨⟨tag ++ (body.toList ++ closer), .start⟩, [], []⟩ := by
    rw [Reader.ofSource, Cursor.ofSource, hsource]
  have hstep := Reader.step_of_voidCloser
    (r := ⟨⟨closer, (Position.start.after tag).after body.toList⟩, more ++
      [.tag name (.ofList pairs) [] .start], []⟩) hv rfl
  rw [parse, hreader, hpass.run_eq, Reader.run_of_step_error (by simp [closer]) hstep]
  simp only [hplace]
  rfl

/-- The content has a void tag and a comment inside an element on the second line, and a tag that is
never closed follows. -/
theorem parse_voidCloser_lines :
    parse "\n<p>A<br> <!-- c --></p>" = .ok
        [.text " " .start, .tag "p" .empty [.text "A" ⟨4, 2, 4⟩, .tag "br" .empty [] ⟨5, 2, 5⟩,
          .text " " ⟨9, 2, 9⟩] ⟨1, 2, 1⟩] ∧
      Report.ofResult "t.html" (parse "<br id=\"x\">\n<p>A<br> <!-- c --></p></br><b") =
        .error ⟨.structural, "Self closing tag <br> may not contain children", "t.html", 2, 24,
          "br>"⟩ := by
  have hbody : parse "\n<p>A<br> <!-- c --></p>" = .ok
      [.text " " .start, .tag "p" .empty [.text "A" ⟨4, 2, 4⟩, .tag "br" .empty [] ⟨5, 2, 5⟩,
        .text " " ⟨9, 2, 9⟩] ⟨1, 2, 1⟩] := by
    with_unfolding_all rfl
  have ha : PropertyList ([' '] ++ ['i', 'd'] ++ (['=', '"'] ++ ['x'] ++ ['"']) ++ [])
      [("id", .text (String.ofList (decodeEntities ['x'])))] :=
    .quoted (by simp [IsLayout, isLayout]) ⟨by simp, List.all_eq_true.1 (by decide)⟩ (by simp)
      (.layout (by simp [IsLayout]))
  refine ⟨hbody, ?_⟩
  exact @parse_voidCloser "br" _ _ _ _ (by decide) ha (by simp [LayoutFirst, isLayout]) hbody
    (by simp) "<b"
    "t.html"

end TemplateCompiler.Markup
