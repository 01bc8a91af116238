import TemplateCompiler.Proofs.Directive.Origin

/-! # How generating code fails

Whether writing fails, and with what, does not depend on what was written before: `Fails` says it
of a run over any writer, and composes along a sequence of runs. Only a property that spreads no
mapping fails, since no void element of a template has children, so the first such property in
document order is blamed.
-/
namespace TemplateCompiler.Markup

theorem Properties.get?_eq_some_iff {p : Properties} {name : String} {value : Value} :
    p.get? name = some value ↔ (name, value) ∈ p.toList := by
  constructor
  · intro h
    obtain ⟨⟨n, v⟩, hfind, rfl⟩ := Option.map_eq_some_iff.1 h
    have hname : n = name := by simpa using List.find?_some hfind
    exact hname ▸ List.mem_of_find?_eq_some hfind
  · intro h
    obtain ⟨before, after, hsplit⟩ := List.append_of_mem h
    have hsplit : p.entries = before ++ (name, value) :: after := hsplit
    have hdistinct := p.distinct
    rw [hsplit, List.map_append, List.nodup_append] at hdistinct
    have hbefore : before.find? (·.1 = name) = none := by
      refine List.find?_eq_none.2 fun e he heq => ?_
      exact hdistinct.2.2 e.1 (List.mem_map_of_mem he) name (by simp) (by simpa using heq)
    simp [Properties.get?, hsplit, List.find?_append, hbefore]

end TemplateCompiler.Markup

namespace TemplateCompiler.Code
open Markup Directive

/-! ## Faults of single entries -/

def spreadsFlag : Entry → Bool
  | .element _ properties _ _ => properties.get? spreadProperty = some .flag
  | _ => false

def spreadFault? : Entry → Option Fault
  | .element tag properties _ position =>
    if properties.get? spreadProperty = some .flag then
      some ⟨.propertyWithoutValue spreadProperty, position, openingTag tag properties⟩
    else none
  | _ => none

theorem spreadFault?_eq_some {e : Entry} {fault : Fault} (h : spreadFault? e = some fault) :
    ∃ tag properties children position, e = .element tag properties children position ∧
      properties.get? spreadProperty = some .flag ∧
      fault = ⟨.propertyWithoutValue spreadProperty, position, openingTag tag properties⟩ := by
  cases e with
  | element tag properties children position =>
    simp only [spreadFault?] at h
    split at h
    · next hflag => exact ⟨_, _, _, _, rfl, hflag, (Option.some.inj h).symm⟩
    · cases h
  | _ => cases h

theorem spreadFault?_isSome (e : Entry) : (spreadFault? e).isSome = spreadsFlag e := by
  cases e with
  | element tag properties children position =>
    by_cases h : properties.get? spreadProperty = some .flag
    · simp [spreadFault?, spreadsFlag, h]
    · simp [spreadFault?, spreadsFlag, h]
  | _ => rfl

def VoidsEmpty (entries : List Entry) : Prop :=
  ∀ tag properties children position,
    .element tag properties children position ∈ entriesInOrder entries → isVoid tag = true →
    children = []

theorem VoidsEmpty.anti {entries more : List Entry} (h : VoidsEmpty more)
    (hs : entriesInOrder entries ⊆ entriesInOrder more) : VoidsEmpty entries := by
  intro tag properties children position he
  exact h tag properties children position (hs he)

/-! ## Failing runs -/

namespace Writer

/-- From any writer the run fails with this fault, or it succeeds if there is none. -/
def Fails (run : Writer → Except Fault Writer) (found : Option Fault) : Prop :=
  ∀ w fault, run w = .error fault ↔ found = some fault

section Fails

variable {run next : Writer → Except Fault Writer} {found more : Option Fault}

theorem fails_ok (f : Writer → Writer) : Fails (fun w => .ok (f w)) none := by
  intro w fault
  constructor
  · intro h
    cases h
  · intro h
    cases h

theorem Fails.bind (h : Fails run found) (h' : Fails next more) :
    Fails (fun w => run w >>= next) (found.or more) := by
  intro w fault
  have hbind : run w >>= next = .error fault ↔ _ := bind_eq_error
  refine hbind.trans ?_
  cases hw : run w with
  | error first =>
    have hfound : found = some first := (h w first).1 hw
    simp [hfound]
  | ok u =>
    have hfound : found = none := by
      refine Option.eq_none_iff_forall_ne_some.2 fun first hfirst => ?_
      have herror := (h w first).2 hfirst
      rw [hw] at herror
      cases herror
    simp [hfound, h' u fault]

/-- What is written without fail on the way to a run and behind it makes no difference. -/
theorem Fails.around (h : Fails run found) (f g : Writer → Writer) :
    Fails (fun w => run (f w) >>= fun u => .ok (g u)) found := by
  have hbehind := h.bind (fails_ok g)
  rw [Option.or_none] at hbehind
  exact fun w => hbehind (f w)

end Fails

def propertyFault? (faultAt : Cause → Fault) (p : String × Value) : Option Fault :=
  if p = (spreadProperty, .flag) then some
    (faultAt (.propertyWithoutValue spreadProperty)) else none

theorem fails_property (options : Options) (faultAt : Cause → Fault) (indent : Nat)
    (p : String × Value) :
    Fails (fun w => w.property options indent faultAt p) (propertyFault? faultAt p) := by
  obtain ⟨name, value⟩ := p
  intro w fault
  cases value with
  | null => simp [Writer.property, propertyFault?]
  | flag =>
    by_cases hs : name = spreadProperty
    · simp [Writer.property, propertyFault?, hs]
    · by_cases hb : options.isBooleanAttribute name = true
      · simp [Writer.property, propertyFault?, hs, hb]
      · simp [Writer.property, propertyFault?, hs, hb]
  | text content =>
    by_cases hs : name = spreadProperty
    · simp [Writer.property, propertyFault?, hs]
    · simp [Writer.property, propertyFault?, hs]

theorem fails_properties (options : Options) (faultAt : Cause → Fault) (indent : Nat)
    (pairs : List (String × Value)) :
    Fails (fun w => pairs.foldlM (fun w p => w.property options indent faultAt p) w)
      (pairs.findSome? (propertyFault? faultAt)) := by
  induction pairs with
  | nil => exact fails_ok id
  | cons p rest ih =>
    have hstep := (fails_property options faultAt indent p).bind ih
    rw [List.findSome?_cons]
    cases hp : propertyFault? faultAt p <;> simpa [hp] using hstep

theorem findSome?_propertyFault? (tag : String) {properties : Properties} (children : List Entry)
    (position : Position) :
    properties.toList.findSome?
      (propertyFault? fun cause => ⟨cause, position, openingTag tag properties⟩) =
      spreadFault? (.element tag properties children position) := by
  rw [spreadFault?]
  split
  · next hflag =>
    have hmem := Properties.get?_eq_some_iff.1 hflag
    cases hfind : properties.toList.findSome?
        (propertyFault? fun cause => ⟨cause, position, openingTag tag properties⟩) with
    | none =>
      have hnone := List.findSome?_eq_none_iff.1 hfind _ hmem
      simp [propertyFault?] at hnone
    | some fault =>
      obtain ⟨p, -, hp⟩ := List.exists_of_findSome?_eq_some hfind
      simp only [propertyFault?] at hp
      split at hp
      · exact hp.symm
      · cases hp
  · next hflag =>
    refine List.findSome?_eq_none_iff.2 fun p hp => if_neg ?_
    rintro rfl
    exact hflag (Properties.get?_eq_some_iff.2 hp)

mutual
theorem fails_entry (options : Options) (e : Entry) (indent : Nat) (hv : VoidsEmpty [e]) :
    Fails (fun w => w.entry options indent e) (e.inOrder.findSome? spreadFault?) := by
  have hinside : VoidsEmpty e.children :=
    hv.anti (by simp [entriesInOrder, Entry.inOrder_eq])
  have hchildren : ∀ indent, Fails (fun w => w.entries options indent e.children)
      ((entriesInOrder e.children).findSome? spreadFault?) := by
    intro indent
    cases e with
    | text | slot | raw => exact fails_ok id
    | element _ _ children _ => exact fails_entries options children indent hinside
    | when _ children | elseWhen _ children => exact fails_entries options children indent hinside
    | otherwise children => exact fails_entries options children indent hinside
    | forEach _ children | inclusion _ _ children =>
      exact fails_entries options children indent hinside
  cases e with
  | text content => exact fails_ok fun w => w.text indent content
  | raw content => exact fails_ok fun w => w.raw indent content
  | slot slot => exact fails_ok fun w => w.slot indent slot
  | when | elseWhen | otherwise | forEach =>
    exact (hchildren (indent + 1)).around _ fun u => u.endBlock indent
  | inclusion file arguments children =>
    simp only [Writer.entry]
    cases children with
    | nil => exact fails_ok _
    | cons child rest => exact (hchildren indent).around _ _
  | element tag properties children position =>
    have hsound : (isVoid tag && !children.isEmpty) = false := by
      by_cases hvoid : isVoid tag = true
      · have hempty := hv tag properties children position
          (by simp [entriesInOrder, Entry.inOrder]) hvoid
        simp [hempty]
      · simp [hvoid]
    have hbehind : Fails
        (fun w => if isVoid tag = true then .ok (w.literal ">")
          else (w.literal ">").entries options indent children >>= fun w =>
            .ok (w.literal ("</" ++ tag ++ ">")))
        ((entriesInOrder children).findSome? spreadFault?) := by
      by_cases hvoid : isVoid tag = true
      · have hempty := hv tag properties children position
          (by simp [entriesInOrder, Entry.inOrder]) hvoid
        simp only [hvoid, if_true, hempty]
        exact fails_ok _
      · simp only [hvoid]
        exact (hchildren indent).around _ _
    have hinOrder :
        (Entry.element tag properties children position).inOrder.findSome? spreadFault? =
        (spreadFault? (.element tag properties children position)).or
          ((entriesInOrder children).findSome? spreadFault?) := by
      rw [Entry.inOrder, List.findSome?_cons]
      cases spreadFault? (.element tag properties children position) <;> rfl
    rw [hinOrder, ← findSome?_propertyFault? tag children position]
    have hproperties :=
      fails_properties options (fun cause => ⟨cause, position, openingTag tag properties⟩)
      indent properties.toList
    have hwhole := hproperties.bind hbehind
    simp only [Writer.entry, hsound]
    exact fun w => hwhole ((w.literal "<").literal tag)

theorem fails_entries (options : Options) (es : List Entry) (indent : Nat) (hv : VoidsEmpty es) :
    Fails (fun w => w.entries options indent es) ((entriesInOrder es).findSome? spreadFault?) := by
  cases es with
  | nil => exact fails_ok id
  | cons e rest =>
    have he : VoidsEmpty [e] := hv.anti (by simp [entriesInOrder])
    have hrest : VoidsEmpty rest := hv.anti (by simp [entriesInOrder])
    rw [entriesInOrder, List.findSome?_append]
    exact (fails_entry options e indent he).bind (fails_entries options rest indent hrest)
end

end Writer

/-- Generating code fails with the fault of the first entry that has one. -/
theorem renderFunction_eq_error_iff {template : Template} {options : Options} {fault : Fault}
    (hv : VoidsEmpty template.body) :
    renderFunction template options = .error fault ↔
      (entriesInOrder template.body).findSome? spreadFault? = some fault := by
  have hbody := Writer.fails_entries options template.body 1 hv
    ((preamble template).literal (template.doctype.getD "")) fault
  rw [← hbody]
  constructor
  · exact eq_error_of_bind_ok
  · intro h
    exact bind_eq_error.2 (.inl h)

end TemplateCompiler.Code

namespace TemplateCompiler
open Markup Directive Code

theorem voidsEmpty_of_template {source : String} {t : Template} (h : template source = .ok t) :
    VoidsEmpty t.body := fun _ _ _ _ he hv => children_of_isVoid h he hv

/-- Behind a front end that succeeds, compiling fails exactly if an element has the spread property
as a flag. The fault is structural, it blames the first such element in document order, and it is
never that a void element has children. -/
theorem compile_eq_error_iff {source : String} (options : Options) {t : Template}
    (ht : template source = .ok t) :
    ((∃ fault, compile source options = .error fault) ↔
      ∃ e ∈ entriesInOrder t.body, spreadsFlag e = true) ∧
    ∀ fault, compile source options = .error fault →
      fault.cause.kind = .structural ∧ (∀ name, fault.cause ≠ .voidWithChildren name) ∧
      ∃ before tag properties children position after,
        entriesInOrder t.body = before ++ .element tag properties children position :: after ∧
        (∀ e ∈ before, spreadsFlag e = false) ∧ properties.get? spreadProperty = some .flag ∧
        fault = ⟨.propertyWithoutValue spreadProperty, position, openingTag tag properties⟩ := by
  have hcompile : ∀ fault, compile source options = .error fault ↔
      (entriesInOrder t.body).findSome? spreadFault? = some fault := by
    intro fault
    rw [← renderFunction_eq_error_iff (voidsEmpty_of_template ht), compile, ht]
    rfl
  refine ⟨?_, fun fault hfault => ?_⟩
  · simp only [hcompile, ← Option.isSome_iff_exists, List.findSome?_isSome_iff, spreadFault?_isSome]
  · obtain ⟨before, e, after, hsplit, he, hbefore⟩ :=
      List.findSome?_eq_some_iff.1 ((hcompile fault).1 hfault)
    obtain ⟨tag, properties, children, position, rfl, hflag, rfl⟩ := spreadFault?_eq_some he
    refine ⟨rfl, fun name h => ?_, before, tag, properties, children, position, after, hsplit,
      ?_, hflag, rfl⟩
    · cases h
    · intro f hf
      rw [← spreadFault?_isSome, hbefore f hf]
      rfl

def spreadFlag : Properties := ⟨[(spreadProperty, .flag)], by simp⟩

def flagged : String := "a<p z-extract><br z-extract></p>"

def flaggedTemplate : Template :=
  ⟨[.text "a", .element "p" spreadFlag [.element "br" spreadFlag [] ⟨14, 1, 15⟩] ⟨1, 1, 2⟩], [],
    none⟩

/-- Of two such elements the outer one is blamed, as the first in document order. -/
theorem compile_eq_error_iff_flagged :
    template flagged = .ok flaggedTemplate ∧
      ∃ fault, compile flagged {} = .error fault ∧ fault.position = ⟨1, 1, 2⟩ := by
  have hn : parse flagged =
      .ok [.text "a" .start, .tag "p" spreadFlag [.tag "br" spreadFlag [] ⟨14, 1, 15⟩]
        ⟨1, 1, 2⟩] := by
    with_unfolding_all rfl
  have ht : template flagged = .ok flaggedTemplate := by
    rw [template, hn]
    rfl
  have hflag : spreadFlag.get? spreadProperty = some .flag := rfl
  obtain ⟨hiff, hfault⟩ := compile_eq_error_iff {} ht
  have horder : entriesInOrder flaggedTemplate.body =
      [.text "a", .element "p" spreadFlag [.element "br" spreadFlag [] ⟨14, 1, 15⟩] ⟨1, 1, 2⟩,
        .element "br" spreadFlag [] ⟨14, 1, 15⟩] := rfl
  obtain ⟨fault, hcompile⟩ := hiff.2 ⟨.element "br" spreadFlag [] ⟨14, 1, 15⟩, by simp [horder],
    by simp [spreadsFlag, hflag]⟩
  refine ⟨ht, fault, hcompile, ?_⟩
  obtain ⟨-, -, before, tag, properties, children, position, after, hsplit, hbefore, -, rfl⟩ :=
    hfault fault hcompile
  rw [horder] at hsplit
  match before, hsplit, hbefore with
  | [], hsplit, _ => cases hsplit
  | [_], hsplit, _ => cases hsplit; rfl
  | _ :: f :: rest, hsplit, hbefore =>
    have hf : spreadsFlag f = false := hbefore f (by simp)
    simp only [List.cons_append, List.cons.injEq] at hsplit
    obtain ⟨-, rfl, -⟩ := hsplit
    simp [spreadsFlag, hflag] at hf

end TemplateCompiler
