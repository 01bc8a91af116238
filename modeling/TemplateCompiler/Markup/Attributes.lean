import TemplateCompiler.Markup.Cursor
import TemplateCompiler.Markup.Entity
import TemplateCompiler.Markup.Properties

/-! # The inside of an opening tag

Behind its name a tag lists properties: names, each alone or followed by an equals sign
and a value in double quotes. `>` ends the tag, and `/>` ends the element with it.
-/
namespace TemplateCompiler.Markup

def isTagNameChar (c : Char) : Bool := !(Text.isLayout c || c = '/' || c = '>')

def isPropertyNameChar (c : Char) : Bool := isTagNameChar c && c ≠ '='

/-- How many characters of the text ahead a fault shows, unless its cause says otherwise. -/
def nearLength : Nat := 10

def readValue (property : String) (c : Cursor) : Except Fault (Value × Cursor) :=
  match c.accept? ['='] with
  | none => .ok (.flag, c)
  | some c =>
    match c.accept? ['"'] with
    | none => .error (c.fault (.unquotedValue property) c.position nearLength)
    | some c =>
      match c.through? ['"'] with
      | none => .error (c.fault (.unclosedValue property) c.position nearLength)
      | some (raw, c) => .ok (.text (String.ofList (decodeEntities raw)), c)

theorem length_readValue_le {property : String} {c d : Cursor} {value : Value}
    (h : readValue property c = .ok (value, d)) : d.rest.length ≤ c.rest.length := by
  unfold readValue at h
  split at h
  · cases h; exact Nat.le_refl _
  · next c₁ h₁ =>
    split at h
    · cases h
    · next c₂ h₂ =>
      split at h
      · cases h
      · next raw c₃ h₃ =>
        cases h
        have := Cursor.length_accept? h₁
        have := Cursor.length_accept? h₂
        have := Cursor.length_through? h₃
        omega

/-- Reads properties up to the end of the tag that starts at `tag`, and says whether that end
opens an element (`>`) or closes it (`/>`). -/
def readProperties (tag : Position) (properties : Properties) (c : Cursor) :
    Except Fault (Properties × Bool × Cursor) :=
  if c.skipLayout.rest = [] then
    .error (c.skipLayout.fault .endInsideTag tag nearLength)
  else
    match c.skipLayout.accept? ['/', '>'] with
    | some d => .ok (properties, false, d)
    | none =>
      match c.skipLayout.accept? ['>'] with
      | some d => .ok (properties, true, d)
      | none =>
        let name := c.skipLayout.run isPropertyNameChar
        if hn : name.1 = [] then
          .error (c.skipLayout.fault .unexpectedCharacter c.skipLayout.position nearLength)
        else
          match hv : readValue (String.ofList name.1) name.2 with
          | .error fault => .error fault
          | .ok (value, d) =>
            have : d.rest.length < c.rest.length := by
              have := length_readValue_le hv
              have : name.1.length + name.2.rest.length = c.skipLayout.rest.length :=
                c.skipLayout.length_run isPropertyNameChar
              have := c.length_skipLayout_le
              have := List.length_pos_iff.2 hn
              omega
            readProperties tag (properties.insert (String.ofList name.1) value) d
termination_by c.rest.length

theorem length_readProperties_lt {tag : Position} {p q : Properties} {opens : Bool} {c d : Cursor}
    (h : readProperties tag p c = .ok (q, opens, d)) : d.rest.length < c.rest.length := by
  have hs := c.length_skipLayout_le
  rw [readProperties] at h
  split at h
  · cases h
  · split at h
    · next e he =>
      cases h
      have := Cursor.length_accept? he
      simp only [List.length_cons, List.length_nil] at this
      omega
    · split at h
      · next e he =>
        cases h
        have := Cursor.length_accept? he
        simp only [List.length_cons, List.length_nil] at this
        omega
      · simp only at h
        split at h
        · cases h
        · next hn =>
          split at h
          · cases h
          · next value e hv =>
            have := length_readValue_le hv
            have := c.skipLayout.length_run isPropertyNameChar
            have := List.length_pos_iff.2 hn
            have : e.rest.length < c.rest.length := by omega
            have := length_readProperties_lt h
            omega
termination_by c.rest.length

end TemplateCompiler.Markup
