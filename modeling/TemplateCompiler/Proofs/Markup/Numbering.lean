import TemplateCompiler.Markup.Arena

/-! # Arenas that are built by appending

An entry that is appended is new and becomes the last child of its parent; nothing else changes.
From this follows how the entries of an arena are linked (`Arena.Linked`), and that the way from an
entry up to the document stays what it was.
-/
namespace TemplateCompiler.Markup

def Item.isTag : Item → Bool
  | .tag .. => true
  | .document | .text _ | .doctype _ => false

namespace Arena

variable {a b c : Arena} {parent id : Nat} {e : Entry} {item : Item} {position : Position}

theorem size_append (hp : parent < a.size) : (a.append parent item position).size = a.size + 1 := by
  have hp' : parent < a.entries.size := hp
  simp [append, dif_pos hp', size]

theorem entries_append (hp : parent < a.size) :
    (a.append parent item position).entries =
      (a.entries.push ⟨item, position, some parent, []⟩).modify parent
        fun e => { e with children := e.children ++ [a.size] } := by
  have hp' : parent < a.entries.size := hp
  rw [append, dif_pos hp']
  rfl

theorem lt_size_of_getElem? (h : a.entries[id]? = some e) : id < a.size :=
  (Array.getElem?_eq_some_iff.1 h).1

theorem getElem?_of_lt_size (h : id < a.size) : ∃ e, a.entries[id]? = some e :=
  ⟨_, Array.getElem?_eq_getElem h⟩

theorem getElem?_append_new (hp : parent < a.size) :
    (a.append parent item position).entries[a.size]? = some ⟨item, position, some parent, []⟩ := by
  rw [entries_append hp, Array.getElem?_modify, if_neg (Nat.ne_of_lt hp), Array.getElem?_push]
  exact if_pos rfl

theorem getElem?_append_old (hp : parent < a.size) (h : a.entries[id]? = some e) :
    (a.append parent item position).entries[id]? =
      some { e with children := e.children ++ if id = parent then [a.size] else [] } := by
  have hid := lt_size_of_getElem? h
  have hne : id ≠ a.entries.size := Nat.ne_of_lt hid
  rw [entries_append hp, Array.getElem?_modify, Array.getElem?_push, if_neg hne, h]
  by_cases hparent : parent = id
  · simp [hparent]
  · simp [hparent, Ne.symm hparent]

/-- The entries behind an append. -/
theorem getElem?_append_cases (hp : parent < a.size)
    (h : (a.append parent item position).entries[id]? = some e) :
    (id = a.size ∧ e = ⟨item, position, some parent, []⟩) ∨
      ∃ old, a.entries[id]? = some old ∧
        e = { old with children := old.children ++ if id = parent then [a.size] else [] } := by
  have hid := lt_size_of_getElem? h
  rw [size_append hp] at hid
  by_cases hnew : id = a.size
  · rw [hnew, getElem?_append_new hp] at h
    exact .inl ⟨hnew, (Option.some.inj h).symm⟩
  · have hlt : id < a.size := by omega
    obtain ⟨old, hold⟩ := getElem?_of_lt_size hlt
    rw [getElem?_append_old hp hold] at h
    exact .inr ⟨old, hold, (Option.some.inj h).symm⟩

/-- The entries as a list: a new one at the end, and the parent with a further child. -/
theorem exists_toList_append (item : Item) (position : Position) (hp : parent < a.size) :
    ∃ before e after,
      a.entries.toList ++ [⟨item, position, some parent, []⟩] = before ++ e :: after ∧
      (a.append parent item position).entries.toList =
        before ++ { e with children := e.children ++ [a.size] } :: after := by
  obtain ⟨before, e, after, hsplit, -, hmodify⟩ :=
    List.exists_of_modify (fun e : Entry => { e with children := e.children ++ [a.size] })
      (l := (a.entries.push ⟨item, position, some parent, []⟩).toList) (i := parent)
      (by simpa [size] using Nat.lt_succ_of_lt hp)
  refine ⟨before, e, after, ?_, ?_⟩
  · rw [← hsplit, Array.toList_push]
  · rw [entries_append hp, Array.toList_modify, hmodify]

/-! ## Growth -/

/-- Every entry of `a` is in `b`, perhaps with other children. -/
def Extends (a b : Arena) : Prop :=
  ∀ (id : Nat) (e : Entry), a.entries[id]? = some e → ∃ children, b.entries[id]? =
    some { e with children := children }

theorem Extends.refl (a : Arena) : Extends a a := fun _ e h => ⟨e.children, h⟩

theorem Extends.trans (h : Extends a b) (h' : Extends b c) : Extends a c := by
  intro id e he
  obtain ⟨children, hb⟩ := h id e he
  obtain ⟨more, hc⟩ := h' id _ hb
  exact ⟨more, hc⟩

theorem Extends.size_le (h : Extends a b) : a.size ≤ b.size := by
  rw [← Nat.not_lt]
  intro hlt
  obtain ⟨e, he⟩ := getElem?_of_lt_size hlt
  obtain ⟨_, hb⟩ := h _ _ he
  exact Nat.lt_irrefl _ (lt_size_of_getElem? hb)

theorem extends_append (a : Arena) (parent : Nat) (item : Item) (position : Position) :
    Extends a (a.append parent item position) := by
  intro id e h
  by_cases hp : parent < a.size
  · exact ⟨_, getElem?_append_old hp h⟩
  · have hp' : ¬ parent < a.entries.size := hp
    rw [append, dif_neg hp']
    exact ⟨e.children, h⟩

mutual
theorem extends_addNode (node : Node) (a : Arena) (parent : Nat) :
    Extends a (a.addNode parent node) := by
  cases node with
  | text content position => exact extends_append a parent _ _
  | doctype literal position => exact extends_append a parent _ _
  | tag name properties children position =>
    exact (extends_append a parent _ _).trans (extends_addForest children _ _)

theorem extends_addForest (nodes : List Node) (a : Arena) (parent : Nat) :
    Extends a (a.addForest parent nodes) := by
  cases nodes with
  | nil => exact .refl a
  | cons node rest => exact (extends_addNode node a parent).trans (extends_addForest rest _ _)
end

theorem addForest_append (nodes more : List Node) (a : Arena) (parent : Nat) :
    a.addForest parent (nodes ++ more) = (a.addForest parent nodes).addForest parent more := by
  induction nodes generalizing a with
  | nil => rfl
  | cons node rest ih => exact ih _

/-! ## Links -/

def listed (a : Arena) : List Nat := a.entries.toList.flatMap Entry.children

theorem count_listed_append (hp : parent < a.size) (n : Nat) :
    (a.append parent item position).listed.count n = a.listed.count n + [a.size].count n := by
  obtain ⟨before, e, after, hold, hnew⟩ := exists_toList_append item position hp
  have hlisted : a.listed = (before ++ e :: after).flatMap Entry.children := by
    rw [← hold]
    simp [listed]
  rw [listed, hnew, hlisted]
  simp only [List.flatMap_append, List.flatMap_cons, List.count_append]
  omega

/-- Parents and children are linked in both directions. -/
structure Linked (a : Arena) : Prop where
  root : ∃ e, a.entries[0]? = some e ∧ e.item = .document ∧ e.parent = none
  parent : ∀ (id : Nat) (e : Entry), a.entries[id]? = some e → 0 < id →
    e.item ≠ .document ∧
      ∃ p q, e.parent = some p ∧ p < id ∧ a.entries[p]? = some q ∧ id ∈ q.children
  /-- Every number but that of the document is listed once. -/
  once : ∀ id, a.listed.count id = if 0 < id ∧ id < a.size then 1 else 0
  increasing : ∀ (id : Nat) (e : Entry), a.entries[id]? = some e → e.children.Pairwise (· < ·)

theorem Linked.size_pos (h : a.Linked) : 0 < a.size := by
  obtain ⟨e, he, -⟩ := h.root
  exact lt_size_of_getElem? he

theorem Linked.child_lt (h : a.Linked) (he : a.entries[id]? = some e) {n : Nat}
    (hn : n ∈ e.children) :
    n < a.size := by
  have hmem : n ∈ a.listed := List.mem_flatMap.2 ⟨e, by simpa using Array.mem_of_getElem? he, hn⟩
  have hcount := List.count_pos_iff.2 hmem
  rw [h.once] at hcount
  split at hcount
  · next hlt => exact hlt.2
  · omega

/-- An entry with a parent is one of its children. -/
theorem Linked.mem_children (h : a.Linked) (he : a.entries[id]? = some e) {p : Nat}
    (hp : e.parent = some p) :
    p < id ∧ ∃ q, a.entries[p]? = some q ∧ id ∈ q.children := by
  have hpos : 0 < id := by
    rw [Nat.pos_iff_ne_zero]
    rintro rfl
    obtain ⟨root, hroot, -, hnone⟩ := h.root
    rw [he] at hroot
    cases hroot
    rw [hp] at hnone
    cases hnone
  obtain ⟨-, p', q, hparent, hlt, hq, hchild⟩ := h.parent id e he hpos
  rw [hp] at hparent
  cases hparent
  exact ⟨hlt, q, hq, hchild⟩

theorem linked_empty : empty.Linked where
  root := ⟨_, rfl, rfl, rfl⟩
  parent := by
    intro id e he hid
    have hlt : id < 1 := lt_size_of_getElem? he
    omega
  once := by
    intro id
    have hsize : empty.size = 1 := rfl
    rw [if_neg (by omega)]
    rfl
  increasing := by
    intro id e he
    have hlt : id < 1 := lt_size_of_getElem? he
    obtain rfl : id = 0 := by omega
    cases he
    exact .nil

theorem Linked.append (h : a.Linked) (hp : parent < a.size) (hi : item ≠ .document) :
    (a.append parent item position).Linked where
  root := by
    obtain ⟨e, he, hitem, hparent⟩ := h.root
    exact ⟨_, getElem?_append_old hp he, hitem, hparent⟩
  parent := by
    intro id e he hid
    rcases getElem?_append_cases hp he with ⟨rfl, rfl⟩ | ⟨old, hold, rfl⟩
    · obtain ⟨q, hq⟩ := getElem?_of_lt_size hp
      exact ⟨hi, parent, _, rfl, hp, getElem?_append_old hp hq, by simp⟩
    · obtain ⟨hitem, p, q, hparent, hlt, hq, hmem⟩ := h.parent id old hold hid
      exact ⟨hitem, p, _, hparent, hlt, getElem?_append_old hp hq, by simp [hmem]⟩
  once := by
    intro id
    have hpos := h.size_pos
    rw [count_listed_append hp, h.once, size_append hp, List.count_singleton]
    by_cases hid : a.size = id
    · have hold : ¬ (0 < id ∧ id < a.size) := by omega
      have hnew : 0 < id ∧ id < a.size + 1 := by omega
      have heq : (a.size == id) = true := by simpa using hid
      rw [if_neg hold, if_pos hnew, if_pos heq]
    · have hiff : (0 < id ∧ id < a.size + 1) ↔ 0 < id ∧ id < a.size := by omega
      have hne : ¬ (a.size == id) = true := by simpa using hid
      rw [if_neg hne, Nat.add_zero]
      simp only [hiff]
  increasing := by
    intro id e he
    rcases getElem?_append_cases hp he with ⟨rfl, rfl⟩ | ⟨old, hold, rfl⟩
    · exact .nil
    · have hsorted := h.increasing id old hold
      split
      · refine List.pairwise_append.2 ⟨hsorted, List.pairwise_singleton _ _, ?_⟩
        intro n hn m hm
        rw [List.mem_singleton.1 hm]
        exact h.child_lt hold hn
      · simpa using hsorted

/-! ## The way to the document -/

/-- The items on the way from an entry to the document, that of the entry first. -/
def path (a : Arena) (id : Nat) : List Item :=
  match a.entries[id]? with
  | none => []
  | some e =>
    e.item ::
      match e.parent with
      | none => []
      | some p => if _h : p < id then a.path p else []
termination_by id

theorem path_of_parent {p : Nat} (he : a.entries[id]? = some e) (hp : e.parent = some p)
    (hlt : p < id) :
    a.path id = e.item :: a.path p := by
  rw [path, he]
  simp only [hp, dif_pos hlt]

theorem path_of_root (he : a.entries[id]? = some e) (hp : e.parent = none) :
    a.path id = [e.item] := by
  rw [path, he]
  simp only [hp]

/-- Where an arena grows, old entries stay where they are. -/
theorem Extends.path_eq (h : Extends a b) (hid : id < a.size) : b.path id = a.path id := by
  induction id using Nat.strongRecOn with
  | _ id ih =>
    obtain ⟨e, he⟩ := getElem?_of_lt_size hid
    obtain ⟨children, hb⟩ := h id e he
    rw [path, path, he, hb]
    simp only [List.cons.injEq, true_and]
    cases e.parent with
    | none => rfl
    | some p =>
      by_cases hlt : p < id
      · simp only [dif_pos hlt]
        exact ih p hlt (Nat.lt_trans hlt hid)
      · simp only [dif_neg hlt]

theorem path_append_new (hp : parent < a.size) :
    (a.append parent item position).path a.size = item :: a.path parent := by
  rw [path_of_parent (getElem?_append_new hp) rfl hp,
    (extends_append a parent item position).path_eq hp]

end Arena
end TemplateCompiler.Markup
