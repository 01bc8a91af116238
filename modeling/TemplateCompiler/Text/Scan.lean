/-! # Searching and splitting text

Text is scanned as a list of characters. `dropPrefix?` removes a known beginning,
`cut?` splits at the first occurrence of a needle and `replaceAll` replaces all
occurrences that a scan from left to right meets. The length facts below are the
measures of every reader built on top.
-/
namespace TemplateCompiler.Text

def dropPrefix? : (start text : List Char) → Option (List Char)
  | [], text => some text
  | _ :: _, [] => none
  | s :: start, c :: text => if s = c then dropPrefix? start text else none

theorem dropPrefix?_eq_some_iff {start text rest : List Char} :
    dropPrefix? start text = some rest ↔ text = start ++ rest := by
  induction start generalizing text with
  | nil => simp [dropPrefix?]
  | cons s start ih =>
    cases text with
    | nil => simp [dropPrefix?]
    | cons c text =>
      by_cases h : s = c
      · subst h; simp [dropPrefix?, ih]
      · simp [dropPrefix?, h, Ne.symm h]

def cut? (needle : List Char) : List Char → Option (List Char × List Char)
  | [] => (dropPrefix? needle []).map fun rest => ([], rest)
  | c :: text =>
    match dropPrefix? needle (c :: text) with
    | some rest => some ([], rest)
    | none => (cut? needle text).map fun (before, rest) => (c :: before, rest)

theorem eq_of_cut? {needle text before rest : List Char}
    (h : cut? needle text = some (before, rest)) :
    text = before ++ needle ++ rest := by
  induction text generalizing before with
  | nil =>
    obtain ⟨_, hd, he⟩ := Option.map_eq_some_iff.1 h
    cases he
    simpa using dropPrefix?_eq_some_iff.1 hd
  | cons c text ih =>
    unfold cut? at h
    split at h
    · next hd => cases h; simpa using dropPrefix?_eq_some_iff.1 hd
    · obtain ⟨⟨b, r⟩, hc, he⟩ := Option.map_eq_some_iff.1 h
      cases he
      simp [ih hc]

theorem length_cut? {needle text before rest : List Char}
    (h : cut? needle text = some (before, rest)) :
    before.length + needle.length + rest.length = text.length := by
  simp [eq_of_cut? h, Nat.add_assoc]

/-- Replaces every occurrence of `needle` met from left to right; an empty needle occurs nowhere. -/
def replaceAll (needle new text : List Char) : List Char :=
  if hn : needle = [] then text
  else
    match h : cut? needle text with
    | none => text
    | some (before, rest) =>
      have : rest.length < text.length := by
        have := length_cut? h
        have := List.length_pos_iff.2 hn
        omega
      before ++ new ++ replaceAll needle new rest
termination_by text.length

/-- The pieces of a text between the occurrences of `sep`, of which there is always one at least. -/
def pieces (sep : Char) : List Char → List (List Char)
  | [] => [[]]
  | c :: text =>
    if c = sep then [] :: pieces sep text
    else
      match pieces sep text with
      | [] => [[c]]
      | piece :: rest => (c :: piece) :: rest

theorem length_takeWhile_add_dropWhile (p : Char → Bool) (text : List Char) :
    (text.takeWhile p).length + (text.dropWhile p).length = text.length := by
  rw [← List.length_append, List.takeWhile_append_dropWhile]

end TemplateCompiler.Text
