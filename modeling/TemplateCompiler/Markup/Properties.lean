/-! # Properties of a tag

A tag holds its properties in the order in which their names first appear. Writing a
name again replaces the value in its place, so every name occurs once.
-/
namespace TemplateCompiler.Markup

/-- The value of a property: a quoted text, a bare name, or an absent value. -/
inductive Value where
  | text (content : String)
  | flag
  | null
  deriving Repr, DecidableEq, Inhabited

def Value.asText? : Value → Option String
  | .text content => some content
  | .flag | .null => none

/-- Replaces the value of `name` where it stands, or adds the pair at the end. -/
def insertEntry (name : String) (value : Value) : List (String × Value) → List (String × Value)
  | [] => [(name, value)]
  | (n, v) :: rest => if n = name then (n, value) :: rest else (n, v) :: insertEntry name value rest

theorem names_insertEntry (name : String) (value : Value) (entries : List (String × Value)) :
    (insertEntry name value entries).map Prod.fst =
      if name ∈ entries.map Prod.fst then entries.map Prod.fst
      else entries.map Prod.fst ++ [name] := by
  induction entries with
  | nil => rfl
  | cons e rest ih =>
    obtain ⟨n, v⟩ := e
    by_cases h : n = name
    · simp [insertEntry, h]
    · simp only [insertEntry, h, if_false, List.map_cons, ih, List.mem_cons, Ne.symm h, false_or]
      split <;> rfl

theorem nodup_insertEntry (name : String) (value : Value) {entries : List (String × Value)}
    (h : (entries.map Prod.fst).Nodup) : ((insertEntry name value entries).map Prod.fst).Nodup := by
  rw [names_insertEntry]
  split
  · exact h
  · next hn =>
    refine List.nodup_append.2 ⟨h, by simp, ?_⟩
    intro a ha b hb
    rw [List.mem_singleton.1 hb]
    exact fun he => hn (he ▸ ha)

@[ext]
structure Properties where
  entries : List (String × Value) := []
  distinct : (entries.map Prod.fst).Nodup := by simp
  deriving Repr, DecidableEq

namespace Properties

def empty : Properties := {}

instance : Inhabited Properties := ⟨empty⟩

def insert (p : Properties) (name : String) (value : Value) : Properties :=
  ⟨insertEntry name value p.entries, nodup_insertEntry name value p.distinct⟩

def ofList (pairs : List (String × Value)) : Properties :=
  pairs.foldl (fun p (name, value) => p.insert name value) empty

def toList (p : Properties) : List (String × Value) := p.entries

def get? (p : Properties) (name : String) : Option Value :=
  (p.entries.find? (·.1 = name)).map Prod.snd

def contains (p : Properties) (name : String) : Bool := (p.get? name).isSome

def erase (p : Properties) (name : String) : Properties :=
  ⟨p.entries.filter (·.1 ≠ name), p.distinct.sublist (List.filter_sublist.map Prod.fst)⟩

/-- Takes out the first pair with a name, and gives back its value. -/
def remove (p : Properties) (name : String) : Option Value × Properties :=
  match p.entries.findIdx? (·.1 = name) with
  | none => (none, p)
  | some i =>
    (p.entries[i]?.map Prod.snd,
      ⟨p.entries.eraseIdx i, p.distinct.sublist ((List.eraseIdx_sublist p.entries i).map Prod.fst)⟩)

def size (p : Properties) : Nat := p.entries.length

def isEmpty (p : Properties) : Bool := p.entries.isEmpty

theorem names_insert (p : Properties) (name : String) (value : Value) :
    (p.insert name value).toList.map Prod.fst =
      if name ∈ p.toList.map Prod.fst then p.toList.map Prod.fst
      else p.toList.map Prod.fst ++ [name] :=
  names_insertEntry name value p.entries

end Properties
end TemplateCompiler.Markup
