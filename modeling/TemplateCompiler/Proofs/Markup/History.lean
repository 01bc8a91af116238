import Mathlib.Data.List.Induction
import TemplateCompiler.Proofs.Markup.Writing

/-! # The history of properties

Properties that have been changed step by step are told by their changes: a name has the value that
it was last given, and stands where it came in. It comes in with the first insertion that no removal
follows.
-/
namespace TemplateCompiler.Markup

inductive Change where
  | insert (name : String) (value : Value)
  | remove (name : String)
  deriving Repr, DecidableEq

namespace Change

def name : Change → String
  | insert name _ => name
  | remove name => name

def apply (p : Properties) : Change → Properties
  | insert name value => p.insert name value
  | remove name => (p.remove name).2

end Change

def Properties.ofChanges (changes : List Change) : Properties := changes.foldl Change.apply empty

/-- The last change of a name gives it a value. -/
def LastGives (changes : List Change) (name : String) (value : Value) : Prop :=
  ∃ i : Nat, changes[i]? = some (.insert name value) ∧ ∀ j change, i < j → changes[j]? =
    some change → change.name ≠ name

/-- A name comes in at a place: it is inserted there and not removed later, and what was inserted
under it before has been removed since. -/
structure ComesIn (changes : List Change) (name : String) (i : Nat) : Prop where
  inserted : ∃ value, changes[i]? = some (.insert name value)
  kept : ∀ j, i < j → changes[j]? ≠ some (.remove name)
  first : ∀ j value, j < i → changes[j]? = some (.insert name value) →
    ∃ k, j < k ∧ k < i ∧ changes[k]? = some (.remove name)

/-! ## One change of properties -/

namespace Properties

theorem find?_insertEntry (name other : String) (value : Value) (entries : List (String × Value)) :
    ((insertEntry name value entries).find? (·.1 = other)).map Prod.snd =
      if other = name then some value else (entries.find? (·.1 = other)).map Prod.snd := by
  induction entries with
  | nil =>
    by_cases h : other = name
    · simp [insertEntry, h]
    · simp [insertEntry, h, Ne.symm h]
  | cons e rest ih =>
    obtain ⟨n, v⟩ := e
    by_cases hn : n = name
    · subst hn
      by_cases h : other = n
      · simp [insertEntry, h]
      · simp [insertEntry, h, Ne.symm h]
    · rw [insertEntry, if_neg hn]
      by_cases h : n = other
      · subst h
        simp [hn]
      · simpa [h] using ih

theorem get?_insert (p : Properties) (name other : String) (value : Value) :
    (p.insert name value).get? other = if other = name then some value else p.get? other :=
  find?_insertEntry name other value p.entries

theorem get?_erase (p : Properties) (name other : String) :
    (p.erase name).get? other = if other = name then none else p.get? other := by
  by_cases h : other = name
  · subst h
    rw [if_pos rfl, get?, Option.map_eq_none_iff, List.find?_eq_none]
    intro e he
    simpa [erase] using (List.mem_filter.1 he).2
  · rw [if_neg h, get?, get?, erase, List.find?_filter]
    congr 2
    funext e
    by_cases he : e.1 = other
    · simp [he, h]
    · simp [he]

theorem names_erase (p : Properties) (name : String) :
    (p.erase name).toList.map Prod.fst = (p.toList.map Prod.fst).filter (· ≠ name) := by
  rw [List.filter_map]
  rfl

/-- As every name occurs once, taking out the first pair with a name takes out all of them. -/
theorem eraseP_eq_filter {entries : List (String × Value)} (h : (entries.map Prod.fst).Nodup)
    (name : String) :
    entries.eraseP (·.1 = name) = entries.filter (·.1 ≠ name) := by
  induction entries with
  | nil => rfl
  | cons e rest ih =>
    rw [List.map_cons, List.nodup_cons] at h
    by_cases he : e.1 = name
    · rw [List.eraseP_cons_of_pos (by simpa using he), List.filter_cons_of_neg (by simpa using he),
        eq_comm, List.filter_eq_self]
      intro other hother
      have hne : other.1 ≠ name := fun heq => h.1 (he ▸ heq ▸ List.mem_map_of_mem hother)
      simpa using hne
    · rw [List.eraseP_cons_of_neg (by simpa using he), List.filter_cons_of_pos (by simpa using he),
        ih h.2]

theorem remove_eq (p : Properties) (name : String) :
    p.remove name = (p.get? name, p.erase name) := by
  have herase := eraseP_eq_filter p.distinct name
  rw [List.eraseP_eq_eraseIdx] at herase
  unfold remove
  split
  · next hnone =>
    rw [hnone] at herase
    have hget : p.get? name = none := by
      rw [get?, Option.map_eq_none_iff]
      simpa [List.findIdx?_eq_none_iff] using hnone
    rw [hget, Prod.mk.injEq]
    exact ⟨rfl, Properties.ext herase⟩
  · next i hi =>
    rw [hi] at herase
    obtain ⟨hlt, hname, hfirst⟩ := List.findIdx?_eq_some_iff_getElem.1 hi
    have hfind : p.entries.find? (·.1 = name) = some p.entries[i] :=
      List.find?_eq_some_iff_getElem.2 ⟨hname, i, hlt, rfl, fun j hj => by simpa using hfirst j hj⟩
    rw [Prod.mk.injEq]
    refine ⟨?_, Properties.ext herase⟩
    rw [get?, hfind, List.getElem?_eq_getElem hlt]

end Properties

/-! ## One more change -/

section Step

variable {changes : List Change} {c : Change} {name other : String} {value : Value} {i : Nat}

theorem getElem?_concat {d : Change} :
    (changes ++ [c])[i]? = some d ↔ changes[i]? = some d ∨ i = changes.length ∧ d = c := by
  rcases Nat.lt_trichotomy i changes.length with hlt | heq | hgt
  · rw [List.getElem?_append_left hlt]
    simp [Nat.ne_of_lt hlt]
  · rw [heq, List.getElem?_concat_length]
    simp [eq_comm]
  · rw [List.getElem?_eq_none (by rw [List.length_append, List.length_singleton]; exact hgt),
      List.getElem?_eq_none (Nat.le_of_lt hgt)]
    simp [Nat.ne_of_gt hgt]

theorem lt_length_of_getElem? (h : changes[i]? = some c) : i < changes.length :=
  (List.getElem?_eq_some_iff.1 h).1

theorem lastGives_concat_of_ne (h : c.name ≠ name) :
    LastGives (changes ++ [c]) name value ↔ LastGives changes name value := by
  constructor
  · rintro ⟨i, hi, hlast⟩
    rcases getElem?_concat.1 hi with hi | ⟨-, rfl⟩
    · exact ⟨i, hi, fun j d hj hd => hlast j d hj (getElem?_concat.2 (.inl hd))⟩
    · exact absurd rfl h
  · rintro ⟨i, hi, hlast⟩
    refine ⟨i, getElem?_concat.2 (.inl hi), fun j d hj hd => ?_⟩
    rcases getElem?_concat.1 hd with hd | ⟨-, rfl⟩
    · exact hlast j d hj hd
    · exact h

theorem lastGives_concat_of_eq (h : c.name = name) :
    LastGives (changes ++ [c]) name value ↔ c = .insert name value := by
  constructor
  · rintro ⟨i, hi, hlast⟩
    rcases getElem?_concat.1 hi with hi | ⟨-, rfl⟩
    · exact absurd h (hlast changes.length c (lt_length_of_getElem? hi)
        (getElem?_concat.2 (.inr ⟨rfl, rfl⟩)))
    · rfl
  · rintro rfl
    refine ⟨changes.length, getElem?_concat.2 (.inr ⟨rfl, rfl⟩), fun j d hj hd => ?_⟩
    have hlength := lt_length_of_getElem? hd
    rw [List.length_append, List.length_singleton] at hlength
    omega

theorem ComesIn.unique {j : Nat} (hi : ComesIn changes name i) (hj : ComesIn changes name j) :
    i = j := by
  have hle : ∀ {i j : Nat}, ComesIn changes name i → ComesIn changes name j → ¬i < j := by
    intro i j hi hj hlt
    obtain ⟨value, hvalue⟩ := hi.inserted
    obtain ⟨k, hik, -, hk⟩ := hj.first i value hlt hvalue
    exact hi.kept k hik hk
  exact Nat.le_antisymm (Nat.not_lt.1 (hle hj hi)) (Nat.not_lt.1 (hle hi hj))

/-- A name that is inserted and not removed later has come in. -/
theorem exists_comesIn (h : changes[i]? = some (.insert name value))
    (hkept : ∀ j, i < j → changes[j]? ≠ some (.remove name)) : ∃ j, ComesIn changes name j := by
  induction i using Nat.strongRecOn generalizing value with
  | ind i ih =>
    by_cases hfirst : ∀ j value, j < i → changes[j]? = some (.insert name value) →
        ∃ k, j < k ∧ k < i ∧ changes[k]? = some (.remove name)
    · exact ⟨i, ⟨value, h⟩, hkept, hfirst⟩
    · push Not at hfirst
      obtain ⟨j, earlier, hj, hinsert, hbetween⟩ := hfirst
      refine ih j hj hinsert fun k hk hremove => ?_
      rcases Nat.lt_trichotomy k i with hlt | rfl | hgt
      · exact hbetween k hk hlt hremove
      · cases h.symm.trans hremove
      · exact hkept k hgt hremove

theorem comesIn_concat_of_ne (h : c.name ≠ name) :
    ComesIn (changes ++ [c]) name i ↔ ComesIn changes name i := by
  have hsame : ∀ {d : Change} {j : Nat}, d.name = name →
      ((changes ++ [c])[j]? = some d ↔ changes[j]? = some d) := by
    intro d j hd
    rw [getElem?_concat, or_iff_left]
    rintro ⟨-, rfl⟩
    exact h hd
  constructor
  · rintro ⟨⟨value, hvalue⟩, hkept, hfirst⟩
    refine ⟨⟨value, (hsame rfl).1 hvalue⟩, fun j hj hremove => hkept j hj ((hsame rfl).2 hremove),
      ?_⟩
    intro j value hj hinsert
    obtain ⟨k, hjk, hki, hk⟩ := hfirst j value hj ((hsame rfl).2 hinsert)
    exact ⟨k, hjk, hki, (hsame rfl).1 hk⟩
  · rintro ⟨⟨value, hvalue⟩, hkept, hfirst⟩
    refine ⟨⟨value, (hsame rfl).2 hvalue⟩, fun j hj hremove => hkept j hj ((hsame rfl).1 hremove),
      ?_⟩
    intro j value hj hinsert
    obtain ⟨k, hjk, hki, hk⟩ := hfirst j value hj ((hsame rfl).1 hinsert)
    exact ⟨k, hjk, hki, (hsame rfl).2 hk⟩

theorem not_comesIn_removed : ¬ComesIn (changes ++ [.remove name]) name i := by
  rintro ⟨⟨value, hvalue⟩, hkept, -⟩
  rcases getElem?_concat.1 hvalue with hvalue | ⟨-, hvalue⟩
  · exact hkept changes.length (lt_length_of_getElem? hvalue) (getElem?_concat.2 (.inr ⟨rfl, rfl⟩))
  · cases hvalue

/-- An insertion leaves the names where they came in. -/
theorem ComesIn.insert (h : ComesIn changes name i) (other : String) (value : Value) :
    ComesIn (changes ++ [.insert other value]) name i := by
  by_cases hother : other = name
  · subst hother
    obtain ⟨⟨old, hold⟩, hkept, hfirst⟩ := h
    refine ⟨⟨old, getElem?_concat.2 (.inl hold)⟩, fun j hj hremove => ?_, fun j value hj hinsert =>
      ?_⟩
    · rcases getElem?_concat.1 hremove with hremove | ⟨-, hremove⟩
      · exact hkept j hj hremove
      · cases hremove
    · rcases getElem?_concat.1 hinsert with hinsert | ⟨rfl, -⟩
      · obtain ⟨k, hjk, hki, hk⟩ := hfirst j value hj hinsert
        exact ⟨k, hjk, hki, getElem?_concat.2 (.inl hk)⟩
      · exact absurd (lt_length_of_getElem? hold) (Nat.lt_asymm hj)
  · exact (comesIn_concat_of_ne (c := .insert other value) hother).2 h

theorem comesIn_new (h : ∀ j, ¬ComesIn changes name j) (value : Value) :
    ComesIn (changes ++ [.insert name value]) name changes.length := by
  refine ⟨⟨value, getElem?_concat.2 (.inr ⟨rfl, rfl⟩)⟩, fun j hj hremove => ?_,
    fun j old hj hinsert => ?_⟩
  · have hlength := lt_length_of_getElem? hremove
    rw [List.length_append, List.length_singleton] at hlength
    omega
  · have hold : changes[j]? = some (.insert name old) :=
      (getElem?_concat.1 hinsert).resolve_right fun hnew => Nat.ne_of_lt hj hnew.1
    by_contra hnone
    push Not at hnone
    obtain ⟨k, hk⟩ := exists_comesIn hold fun k hjk hremove =>
      hnone k hjk (lt_length_of_getElem? hremove) (getElem?_concat.2 (.inl hremove))
    exact h k hk

end Step

/-! ## All changes -/

/-- What changes tell about properties. -/
structure Tells (changes : List Change) (p : Properties) : Prop where
  value : ∀ name value, p.get? name = some value ↔ LastGives changes name value
  present : ∀ name, name ∈ p.toList.map Prod.fst ↔ ∃ i, ComesIn changes name i
  ordered : (p.toList.map Prod.fst).Pairwise fun a b =>
    ∃ i j, ComesIn changes a i ∧ ComesIn changes b j ∧ i < j

theorem ComesIn.lt_length {changes : List Change} {name : String} {i : Nat}
    (h : ComesIn changes name i) :
    i < changes.length := by
  obtain ⟨value, hvalue⟩ := h.inserted
  exact lt_length_of_getElem? hvalue

theorem tells_empty : Tells [] Properties.empty := by
  refine ⟨fun name value => ⟨nofun, ?_⟩, fun name => ⟨nofun, ?_⟩, List.Pairwise.nil⟩
  · rintro ⟨i, hi, -⟩
    cases hi
  · rintro ⟨i, hi⟩
    exact absurd hi.lt_length (Nat.not_lt_zero i)

theorem Tells.insert {changes : List Change} {p : Properties} (h : Tells changes p) (name : String)
    (value : Value) :
    Tells (changes ++ [.insert name value]) (p.insert name value) := by
  have hnew : name ∉ p.toList.map Prod.fst →
      ComesIn (changes ++ [.insert name value]) name changes.length :=
    fun hname => comesIn_new (fun j hj => hname ((h.present name).2 ⟨j, hj⟩)) value
  refine ⟨fun other v => ?_, fun other => ?_, ?_⟩
  · rw [Properties.get?_insert]
    by_cases hother : name = other
    · rw [if_pos hother.symm, lastGives_concat_of_eq (c := .insert name value) hother]
      simp [hother]
    · rw [if_neg (Ne.symm hother), lastGives_concat_of_ne (c := .insert name value) hother, h.value]
  · rw [Properties.names_insert]
    by_cases hother : name = other
    · subst hother
      refine iff_of_true ?_ ?_
      · split
        · next hmem => exact hmem
        · exact List.mem_append_right _ List.mem_cons_self
      · by_cases hmem : name ∈ p.toList.map Prod.fst
        · obtain ⟨i, hi⟩ := (h.present name).1 hmem
          exact ⟨i, hi.insert name value⟩
        · exact ⟨changes.length, hnew hmem⟩
    · simp only [comesIn_concat_of_ne (c := .insert name value) hother, ← h.present other]
      split
      · rfl
      · rw [List.mem_append, List.mem_singleton, or_iff_left (Ne.symm hother)]
  · have hold : (p.toList.map Prod.fst).Pairwise fun a b => ∃ i j,
        ComesIn (changes ++ [.insert name value]) a i ∧
        ComesIn (changes ++ [.insert name value]) b j ∧ i < j := by
      refine h.ordered.imp ?_
      rintro a b ⟨i, j, hi, hj, hlt⟩
      exact ⟨i, j, hi.insert name value, hj.insert name value, hlt⟩
    rw [Properties.names_insert]
    split
    · exact hold
    · next hmem =>
      refine List.pairwise_append.2 ⟨hold, List.pairwise_singleton _ _, fun a ha b hb => ?_⟩
      rw [List.mem_singleton.1 hb]
      obtain ⟨i, hi⟩ := (h.present a).1 ha
      exact ⟨i, changes.length, hi.insert name value, hnew hmem, hi.lt_length⟩

theorem Tells.remove {changes : List Change} {p : Properties} (h : Tells changes p)
    (name : String) :
    Tells (changes ++ [.remove name]) (p.remove name).2 := by
  have hother : ∀ {other}, other ≠ name → ∀ i, ComesIn (changes ++ [.remove name]) other i ↔
      ComesIn changes other i :=
    fun hne i => comesIn_concat_of_ne (c := .remove name) (Ne.symm hne)
  rw [Properties.remove_eq]
  refine ⟨fun other v => ?_, fun other => ?_, ?_⟩
  · rw [Properties.get?_erase]
    by_cases hne : other = name
    · rw [if_pos hne, lastGives_concat_of_eq (c := .remove name) hne.symm]
      simp
    · rw [if_neg hne, lastGives_concat_of_ne (c := .remove name) (Ne.symm hne), h.value]
  · rw [Properties.names_erase, List.mem_filter]
    by_cases hne : other = name
    · subst hne
      refine iff_of_false (fun hmem => by simp at hmem) ?_
      rintro ⟨i, hi⟩
      exact not_comesIn_removed hi
    · simp only [hother hne, ← h.present other]
      simp [hne]
  · rw [Properties.names_erase]
    refine List.Pairwise.imp_of_mem ?_ (h.ordered.sublist List.filter_sublist)
    rintro a b ha hb ⟨i, j, hi, hj, hlt⟩
    have hkeeps : ∀ {c}, c ∈ (p.toList.map Prod.fst).filter (· ≠ name) → c ≠ name := by
      intro c hc
      simpa using (List.mem_filter.1 hc).2
    exact ⟨i, j, (hother (hkeeps ha) i).2 hi, (hother (hkeeps hb) j).2 hj, hlt⟩

theorem tells_ofChanges (changes : List Change) : Tells changes (.ofChanges changes) := by
  induction changes using List.reverseRecOn with
  | nil => exact tells_empty
  | append_singleton changes change ih =>
    have hstep : Properties.ofChanges (changes ++ [change]) =
        change.apply (.ofChanges changes) := by
      rw [Properties.ofChanges, List.foldl_append, List.foldl_cons, List.foldl_nil,
        Properties.ofChanges]
    rw [hstep]
    cases change with
    | insert name value => exact ih.insert name value
    | remove name => exact ih.remove name

theorem Tells.nodup {changes : List Change} {p : Properties} (h : Tells changes p) :
    (p.toList.map Prod.fst).Nodup := by
  refine h.ordered.imp ?_
  rintro a _ ⟨i, j, hi, hj, hlt⟩ rfl
  exact Nat.ne_of_lt hlt (hi.unique hj)

/-- Properties are a map in order of entry. Whatever changes they come from, every name occurs once,
the names stand in the order in which they came in, a name has the value it was last given, and
inserting the pairs anew gives the same properties. -/
theorem Properties.map_in_order_of_entry (changes : List Change) :
    ((ofChanges changes).toList.map Prod.fst).Nodup ∧
      (∀ name, name ∈ (ofChanges changes).toList.map Prod.fst ↔ ∃ i, ComesIn changes name i) ∧
      ((ofChanges changes).toList.map Prod.fst).Pairwise
        (fun a b => ∃ i j, ComesIn changes a i ∧ ComesIn changes b j ∧ i < j) ∧
      (∀ name value, (ofChanges changes).get? name = some value ↔ LastGives changes name value) ∧
      (∀ name value, ((ofChanges changes).remove name).1 = some value ↔
        LastGives changes name value) ∧
      (∀ name, (ofChanges changes).contains name = true ↔ ∃ value, LastGives changes name value) ∧
      (ofChanges changes).size = ((ofChanges changes).toList.map Prod.fst).length ∧
      ofList (ofChanges changes).toList = ofChanges changes := by
  have h := tells_ofChanges changes
  refine ⟨h.nodup, h.present, h.ordered, h.value, fun name value => ?_, fun name => ?_, ?_,
    ofList_entries _⟩
  · rw [remove_eq, h.value]
  · rw [contains, Option.isSome_iff_exists]
    exact exists_congr fun value => h.value name value
  · rw [List.length_map]
    rfl

example : (Properties.ofChanges [.insert "a" .flag, .insert "b" .flag, .remove "a",
      .insert "a" (.text "c"),
    .insert "b" .null]).toList = [("b", .null), ("a", .text "c")] := by decide

end TemplateCompiler.Markup
