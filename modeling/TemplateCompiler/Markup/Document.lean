import TemplateCompiler.Markup.Attributes
import TemplateCompiler.Markup.Node

/-! # Reading a document

The document is read one construct at a time: a run of layout, a comment, a text up to
the next `<`, a doctype, an opening tag or a closing tag. The state holds the siblings
read so far and the elements that are still open, the innermost first. Every step
shortens the text that is left, which is the measure of `Reader.run`.
-/
namespace TemplateCompiler.Markup
open TemplateCompiler.Text

/-- An element whose closing tag has not been read. -/
structure OpenElement where
  name : String
  properties : Properties
  position : Position
  /-- The siblings before it, the latest first. -/
  before : List Node

def OpenElement.close (e : OpenElement) (children : List Node) : Node :=
  .tag e.name e.properties children.reverse e.position

structure Reader where
  cursor : Cursor
  /-- The nodes of the innermost open element, the latest first. -/
  siblings : List Node
  /-- The open elements, the innermost first. -/
  enclosing : List OpenElement

namespace Reader

def ofSource (source : String) : Reader := ⟨.ofSource source, [], []⟩

def depth (r : Reader) : Nat := r.enclosing.length

def add (r : Reader) (node : Node) (c : Cursor) : Reader :=
  { r with cursor := c, siblings := node :: r.siblings }

def comment (r : Reader) (c : Cursor) : Except Fault Reader :=
  match c.through? ['-', '-', '>'] with
  | none => .error (c.fault .unclosedComment c.position nearLength)
  | some (_, d) => .ok { r with cursor := d }

/-- The void tag that a closing tag names, with the length of the closing tag's text. -/
def voidCloser? (c : Cursor) : Option (String × Nat) :=
  match c.through? ['>'] with
  | none => none
  | some (closer, _) =>
    let name := String.ofList (dropEndWhile isLayout (closer.dropWhile isLayout))
    if isVoid name then some (name, closer.length + 1) else none

def closing (r : Reader) (c : Cursor) : Except Fault Reader :=
  match voidCloser? c with
  | some (name, count) => .error (c.fault (.voidWithChildren name) r.cursor.position count)
  | none =>
    match r.enclosing with
    | [] => .error (c.fault .closerWithoutOpener r.cursor.position nearLength)
    | e :: outer =>
      match c.accept? (e.name.toList ++ ['>']) with
      | none => .error (c.fault (.wrongCloser e.name) c.position (e.name.length + 1))
      | some d => .ok ⟨d, e.close r.siblings :: e.before, outer⟩

/-- Behind `<!`. A doctype stands before everything else, layout included. -/
def doctype (r : Reader) (c : Cursor) : Except Fault Reader :=
  if !r.enclosing.isEmpty || !r.siblings.isEmpty then
    .error (c.fault .misplacedDoctype r.cursor.position nearLength)
  else
    match c.through? ['>'] with
    | none => .error (c.fault .unclosedDoctype r.cursor.position 5)
    | some (content, d) =>
      .ok (r.add (.doctype (String.ofList (['<', '!'] ++ content ++ ['>'])) r.cursor.position) d)

def opening (r : Reader) (c : Cursor) : Except Fault Reader :=
  let name := c.run isTagNameChar
  if name.2.rest = [] then
    .error (c.fault .unclosedTag r.cursor.position 5)
  else if name.1 = [] then
    .error (c.fault .missingTagName r.cursor.position 5)
  else
    match readProperties r.cursor.position .empty name.2 with
    | .error fault => .error fault
    | .ok (properties, opens, d) =>
      let tag := String.ofList name.1
      if !opens || isVoid tag then
        .ok (r.add (.tag tag properties [] r.cursor.position) d)
      else if maxDepth ≤ r.depth then
        .error ⟨.nestingTooDeep, r.cursor.position, "<" ++ tag⟩
      else
        .ok ⟨d, [], ⟨tag, properties, r.cursor.position, r.siblings⟩ :: r.enclosing⟩

/-- A run of layout, which counts as one space, or a text up to the next `<`. -/
def content (r : Reader) : Reader :=
  let layout := r.cursor.run isLayout
  if layout.1 = [] then
    let text := r.cursor.run (· ≠ '<')
    r.add (.text (String.ofList text.1) r.cursor.position) text.2
  else
    r.add (.text " " r.cursor.position) layout.2

def step (r : Reader) : Except Fault Reader :=
  match r.cursor.accept? ['<', '!', '-', '-'] with
  | some c => r.comment c
  | none =>
    match r.cursor.accept? ['<', '/'] with
    | some c => r.closing c
    | none =>
      match r.cursor.accept? ['<', '!'] with
      | some c => r.doctype c
      | none =>
        match r.cursor.accept? ['<'] with
        | some c => r.opening c
        | none => .ok r.content

def finish (r : Reader) : Except Fault (List Node) :=
  match r.enclosing with
  | [] => .ok r.siblings.reverse
  | e :: _ => .error (r.cursor.fault (.elementLeftOpen e.name) e.position 0)

private theorem length_comment_le {r s : Reader} {c : Cursor} (h : r.comment c = .ok s) :
    s.cursor.rest.length ≤ c.rest.length := by
  unfold comment at h
  split at h
  · cases h
  · next d hd =>
    cases h
    have := Cursor.length_through? hd
    exact Nat.le.intro (Nat.add_comm _ _ ▸ this)

private theorem length_closing_le {r s : Reader} {c : Cursor} (h : r.closing c = .ok s) :
    s.cursor.rest.length ≤ c.rest.length := by
  unfold closing at h
  split at h
  · cases h
  · split at h
    · cases h
    · split at h
      · cases h
      · next d hd =>
        cases h
        have := Cursor.length_accept? hd
        exact Nat.le.intro (Nat.add_comm _ _ ▸ this)

private theorem length_doctype_le {r s : Reader} {c : Cursor} (h : r.doctype c = .ok s) :
    s.cursor.rest.length ≤ c.rest.length := by
  unfold doctype at h
  split at h
  · cases h
  · split at h
    · cases h
    · next d hd =>
      cases h
      have := Cursor.length_through? hd
      exact Nat.le.intro (Nat.add_comm _ _ ▸ this)

private theorem length_opening_le {r s : Reader} {c : Cursor} (h : r.opening c = .ok s) :
    s.cursor.rest.length ≤ c.rest.length := by
  unfold opening at h
  simp only at h
  split at h
  · cases h
  · split at h
    · cases h
    · split at h
      · cases h
      · next properties opens d hd =>
        have hp := length_readProperties_lt hd
        have hr := c.length_run isTagNameChar
        have : d.rest.length ≤ c.rest.length := by omega
        split at h
        · cases h; exact this
        · split at h
          · cases h
          · cases h; exact this

private theorem length_content_lt {r : Reader} (hr : r.cursor.rest ≠ [])
    (hl : r.cursor.accept? ['<'] = none) : r.content.cursor.rest.length < r.cursor.rest.length := by
  unfold content
  simp only
  split
  · have := r.cursor.length_run (· ≠ '<')
    have : (r.cursor.run (· ≠ '<')).1 ≠ [] := by
      obtain ⟨c, rest, hc⟩ := List.exists_cons_of_ne_nil hr
      have : c ≠ '<' := by
        rintro rfl
        simp [Cursor.accept?, hc, dropPrefix?] at hl
      simp [Cursor.run, hc, this]
    have := List.length_pos_iff.2 this
    simp only [add]
    omega
  · next hn =>
    have := r.cursor.length_run isLayout
    have := List.length_pos_iff.2 hn
    simp only [add]
    omega

/-- A construct takes at least one character. -/
theorem length_step_lt {r s : Reader} (hr : r.cursor.rest ≠ []) (h : r.step = .ok s) :
    s.cursor.rest.length < r.cursor.rest.length := by
  unfold step at h
  split at h
  · next c hc =>
    have := Cursor.length_accept? hc
    exact Nat.lt_of_le_of_lt (length_comment_le h) (by simp_all; omega)
  · split at h
    · next c hc =>
      have := Cursor.length_accept? hc
      exact Nat.lt_of_le_of_lt (length_closing_le h) (by simp_all; omega)
    · split at h
      · next c hc =>
        have := Cursor.length_accept? hc
        exact Nat.lt_of_le_of_lt (length_doctype_le h) (by simp_all; omega)
      · split at h
        · next c hc =>
          have := Cursor.length_accept? hc
          exact Nat.lt_of_le_of_lt (length_opening_le h) (by simp_all; omega)
        · next hl => cases h; exact length_content_lt hr hl

def run (r : Reader) : Except Fault (List Node) :=
  if hr : r.cursor.rest = [] then r.finish
  else
    match hs : r.step with
    | .error fault => .error fault
    | .ok s =>
      have := length_step_lt hr hs
      s.run
termination_by r.cursor.rest.length

end Reader

/-- The nodes of a document. -/
def parse (source : String) : Except Fault (List Node) := (Reader.ofSource source).run

end TemplateCompiler.Markup
