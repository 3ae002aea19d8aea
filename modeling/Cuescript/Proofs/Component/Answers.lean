import Cuescript.Catalogue.Conditions
import Cuescript.Proofs.Component.Registrations
import Cuescript.Proofs.Forest.Nodes
import Cuescript.Proofs.Forest.Resolved
import Cuescript.Proofs.Text.Case

/-!
What a compiled trigger answers to, against what the registry leads to. A trigger answers to every
name that its component was registered with, whether the component got the name or not, and to each
in the case of its ASCII letters only. Main statements: it answers to a name of another component
exactly if its own was registered with that name and did not get it or lost it, and to a name of its
own exactly if that is written with the same characters beyond ASCII as one of those it has.
-/
namespace Cuescript

namespace Shelf

theorem serial_remove_iff {α : Type} {s : Shelf α} {name identifier : String} {n : Nat} :
    ((s.remove identifier).2.find? name).map (·.serial) = some n ↔
      (s.find? name).map (·.serial) = some n ∧
        (s.find? identifier).map (·.serial) ≠ some n := by
  constructor
  · intro found
    exact ⟨serial_of_remove found, fun leads => serial_remove leads found⟩
  · rintro ⟨found, other⟩
    obtain ⟨g, here, rfl⟩ := Option.map_eq_some_iff.mp found
    have stays : (s.remove identifier).2.find? name = some g :=
      find?_remove_iff.mpr ⟨here, fun f leads same => other (by rw [leads, Option.map_some, same])⟩
    rw [stays, Option.map_some]

end Shelf

theorem Directive.resolve_trigger {d : Directive} {r : Registry} {id : NodeId} {n : TriggerNode}
    (made : d.resolve r id = .ok (.trigger n)) :
    ∃ f, r.triggers.find? n.identifier = some f ∧ n.aliases = f.info.names := by
  unfold resolve at made
  split at made
  · obtain ⟨_, _, ⟨⟩⟩ := map_ok made
  · obtain ⟨_, _, ⟨⟩⟩ := map_ok made
  · obtain ⟨parts, ok, same⟩ := map_ok made
    cases same
    cases found : r.triggers.find? d.identifier with
    | none =>
      rw [found] at ok
      cases ok
    | some f => exact ⟨f, rfl, rfl⟩

namespace Registry

variable {r : Registry} {cs : List Change} {c : Change} {kind : Kind} {name other : String} {n : Nat}
  {info : ComponentInfo}

theorem find?_of_trigger {forms : List LineForm} {lines : List String} {first : Nat} {f : Forest}
    {t : TriggerNode} (compiles : r.compileLines forms lines first = .ok f) (there : t ∈ f.triggers) :
    ∃ g, r.triggers.find? t.identifier = some g ∧ t.aliases = g.info.names := by
  rw [compileLines] at compiles
  split at compiles
  · cases compiles
  · rename_i listing _
    obtain ⟨items, resolved, rfl⟩ := compile_ok_iff.mp compiles
    obtain ⟨u, trigger, rfl⟩ := Layout.mem_triggers_ofItems.mp there
    obtain ⟨t, here⟩ := Layout.trigger_of_kind trigger
    have inside : u < listing.directives.length :=
      resolved.length ▸ (List.getElem?_eq_some_iff.mp here).1
    obtain ⟨i, same, made⟩ := resolved.item u _ (List.getElem?_eq_getElem inside)
    cases here.symm.trans same
    simpa only [Layout.triggerAt, here] using Directive.resolve_trigger made

/-! What changes do to a name that a registration has. -/

/-- A registration keeps a name until another takes the name for its identifier, or until it is
removed itself. -/
theorem serial?_apply_iff (old : n < r.nextSerial) :
    (r.apply c).serial? kind name = some n ↔ r.serial? kind name = some n ∧
      (∀ info, c.info? = some info → info.kind = kind →
        Shelf.keyOf info.identifier ≠ Shelf.keyOf name) ∧
      ∀ identifier, c = .unregister kind identifier → r.serial? kind identifier ≠ some n := by
  have older : n ≠ r.nextSerial := Nat.ne_of_lt old
  cases c with
  | register component identifier aliases description =>
    have added {α : Type} (s : Shelf α) (f : Factory α) (is : f.serial = r.nextSerial) :
        ((s.add f).find? name).map (·.serial) = some n ↔
          (s.find? name).map (·.serial) = some n ∧
            Shelf.keyOf f.info.identifier ≠ Shelf.keyOf name := by
      rw [Shelf.serial_add (is ▸ older), and_comm, ne_comm]
    cases component <;> cases kind <;>
      simp only [apply, register, serial?, Change.info?, added, Option.some.injEq, forall_eq',
        reduceCtorEq, false_implies, forall_const, and_true]
  | unregister removed identifier =>
    cases removed <;> cases kind <;>
      simp only [apply, unregister, serial?, Change.info?, Shelf.serial_remove_iff, reduceCtorEq,
        Change.unregister.injEq, true_and, false_and, false_implies, forall_eq', implies_true,
        and_true]

theorem mem_registrations_cons :
    info ∈ registrations (c :: cs) ↔ c.info? = some info ∨ info ∈ registrations cs := by
  simp only [registrations, List.mem_filterMap, List.mem_cons, or_and_right, exists_or,
    exists_eq_left]

theorem held_applyAll (old : n < r.nextSerial)
    (alive : (cs.foldl apply r).serial? kind other = some n) :
    (cs.foldl apply r).serial? kind name = some n ↔ r.serial? kind name = some n ∧
      ∀ info ∈ registrations cs, info.kind = kind →
        Shelf.keyOf info.identifier ≠ Shelf.keyOf name := by
  induction cs generalizing r with
  | nil => simp [registrations]
  | cons c cs ih =>
    have older := Nat.lt_of_lt_of_le old (r.nextSerial_apply c)
    have kept (identifier : String) (is : c = .unregister kind identifier) :
        r.serial? kind identifier ≠ some n := by
      rintro found
      rw [List.foldl_cons, is] at alive
      exact gone_applyAll (serial?_unregister found) (is ▸ older) cs other alive
    rw [List.foldl_cons, ih older alive, serial?_apply_iff old]
    simp only [mem_registrations_cons, or_imp, forall_and, and_assoc]
    constructor
    · rintro ⟨here, own, -, rest⟩
      exact ⟨here, own, rest⟩
    · rintro ⟨here, own, rest⟩
      exact ⟨here, own, kept, rest⟩

theorem exists_registration (here : (registrations cs)[n]? = some info) :
    ∃ before c later, cs = before ++ c :: later ∧ c.info? = some info ∧
      (registrations before).length = n := by
  induction cs generalizing n with
  | nil => cases here
  | cons c cs ih =>
    cases is : c.info? with
    | none =>
      have same : registrations (c :: cs) = registrations cs := List.filterMap_cons_none is
      obtain ⟨before, d, later, rfl, made, length⟩ := ih (same ▸ here)
      refine ⟨c :: before, d, later, rfl, made, ?_⟩
      rwa [registrations, List.filterMap_cons_none is]
    | some first =>
      have front : registrations (c :: cs) = first :: registrations cs := List.filterMap_cons_some is
      rw [front] at here
      cases n with
      | zero =>
        cases here
        exact ⟨[], c, cs, rfl, is, rfl⟩
      | succ n =>
        obtain ⟨before, d, later, rfl, made, length⟩ := ih here
        refine ⟨c :: before, d, later, rfl, made, ?_⟩
        rw [registrations, List.filterMap_cons_some is, List.length_cons, ← length, registrations]

/-- The name was in use when the component was registered with it, and is not its identifier. -/
def Withheld (before : List Change) (info : ComponentInfo) (name : String) : Prop :=
  Shelf.keyOf name ≠ Shelf.keyOf info.identifier ∧ (after before).serial? info.kind name ≠ none

/-- Another component of the kind was registered later with the name for its identifier. -/
def TakenOver (later : List Change) (kind : Kind) (name : String) : Prop :=
  ∃ info ∈ registrations later, info.kind = kind ∧ Shelf.keyOf info.identifier = Shelf.keyOf name

/-- Of the names that it was registered with, a component that is still there has those that it got
and that no other took. -/
theorem held_iff {before later : List Change} (is : c.info? = some info)
    (alive : (after (before ++ c :: later)).serial? info.kind other =
      some (registrations before).length) (listed : name ∈ info.names) :
    (after (before ++ c :: later)).serial? info.kind name = some (registrations before).length ↔
      ¬ (Withheld before info name ∨ TakenOver later info.kind name) := by
  have told := told_after before
  have old : (registrations before).length < ((after before).apply c).nextSerial := by
    rw [(told.apply c).count, is, List.length_append]
    exact Nat.lt_succ_self _
  have split : after (before ++ c :: later) = later.foldl apply ((after before).apply c) := by
    rw [after, List.foldl_append, List.foldl_cons, after]
  rw [split] at alive ⊢
  rw [held_applyAll old alive, told.added is listed, not_or]
  refine and_congr ?_ ?_
  · rw [Withheld, not_and_or, not_not, not_not]
  · simp only [TakenOver, not_exists, not_and, ne_eq]

theorem serial?_congr (r : Registry) (kind : Kind)
    (same : Shelf.keyOf name = Shelf.keyOf other) : r.serial? kind name = r.serial? kind other := by
  cases kind <;> simp only [serial?, Shelf.find?, same]

end Registry

theorem TriggerNode.answersTo_iff {t : TriggerNode} {j : String} :
    t.answersTo j = true ↔
      ∃ name ∈ t.identifier :: t.aliases, Text.eqIgnoringAsciiCase name j = true := by
  simp [answersTo]

namespace Registry

variable {cs : List Change} {forms : List LineForm} {lines : List String} {first : Nat} {f : Forest}
  {t : TriggerNode}

/-- How a trigger stands to the names of the registry that it was compiled against. Its component
was registered as `info`, with the changes `before` before that and `later` after it. -/
structure Answering (cs : List Change) (t : TriggerNode) (before later : List Change)
    (info : ComponentInfo) : Prop where
  registered : ∃ c, cs = before ++ c :: later ∧ c.info? = some info ∧ info.kind = .trigger
  leads : (after cs).serial? .trigger t.identifier = some (registrations before).length
  /-- The component has the names that it was registered with, but those it did not get or lost. -/
  held : ∀ name ∈ info.names,
    ((after cs).serial? .trigger name = some (registrations before).length ↔
      ¬ (Withheld before info name ∨ TakenOver later .trigger name))
  /-- These are the names of other components that the trigger answers to. -/
  astray : ∀ j m, (after cs).serial? .trigger j = some m → m ≠ (registrations before).length →
    (t.answersTo j = true ↔ ∃ name ∈ info.names, Text.eqIgnoringAsciiCase name j = true ∧
      (Withheld before info name ∨ TakenOver later .trigger name))

/-- A compiled trigger answers to a name of another component exactly if its own component was
registered with that name and did not get it, or lost it to one registered later. -/
theorem compileLines_answering
    (compiles : (after cs).compileLines forms lines first = .ok f) (there : t ∈ f.triggers) :
    ∃ before later info, Answering cs t before later info := by
  obtain ⟨g, found, aliases⟩ := find?_of_trigger compiles there
  have told := (told_after cs).triggers
  have leads : (after cs).serial? .trigger t.identifier = some g.serial := by
    rw [serial?, found, Option.map_some]
  have kind : g.info.kind = .trigger := told.kind found
  obtain ⟨before, c, later, is, made, serial⟩ := exists_registration (told.registered found)
  have held (name : String) (listed : name ∈ g.info.names) :
      (after cs).serial? .trigger name = some g.serial ↔
        ¬ (Withheld before g.info name ∨ TakenOver later .trigger name) := by
    subst is
    rw [← serial, ← kind] at leads ⊢
    exact held_iff made leads listed
  refine ⟨before, later, g.info, ⟨c, is, made, kind⟩, serial ▸ leads, serial ▸ held, ?_⟩
  intro j m other differs
  rw [serial] at differs
  rw [TriggerNode.answersTo_iff, aliases]
  constructor
  · rintro ⟨name, listed, same⟩
    have leadsSame := (after cs).serial?_congr .trigger (Text.eqIgnoringAsciiCase_iff.mp same).1
    have elsewhere : (after cs).serial? .trigger name ≠ some g.serial := by
      rw [leadsSame, other]
      exact fun is => differs (Option.some.inj is)
    rcases List.mem_cons.mp listed with rfl | listed
    · exact absurd leads elsewhere
    · exact ⟨name, listed, same, not_not.mp fun fine => elsewhere ((held name listed).mpr fine)⟩
  · rintro ⟨name, listed, same, -⟩
    exact ⟨name, List.mem_cons_of_mem _ listed, same⟩

theorem exists_trigger {compiled : Except CompileError Forest} {p : TriggerNode → Bool}
    (seen : (compiled.toOption.any fun f => f.triggers.any p) = true) :
    ∃ f, compiled = .ok f ∧ ∃ t ∈ f.triggers, p t = true := by
  cases compiled with
  | error => cases seen
  | ok f => exact ⟨f, rfl, List.any_eq_true.mp seen⟩

/-- A trigger, and another one that declares the identifier of the first as an alias. -/
def borrowed : List Change :=
  [.register (.trigger Catalogue.join) "join" ["login"] none,
    .register (.trigger (Catalogue.always .player)) "enter" ["join"] none]

theorem compileLines_answering_borrowed :
    ∃ f, (after borrowed).compileLines LineForm.standards ["@Enter"] 0 = .ok f ∧
      ∃ t ∈ f.triggers, ∃ before later info, Answering borrowed t before later info := by
  have seen : (((after borrowed).compileLines LineForm.standards ["@Enter"] 0).toOption.any
      fun f => f.triggers.any fun _ => true) = true := by decide +kernel
  obtain ⟨f, compiles, t, there, -⟩ := exists_trigger seen
  exact ⟨f, compiles, t, there, compileLines_answering compiles there⟩

/-- The second trigger did not get the alias, and answers to it all the same. -/
theorem borrowed_join :
    ¬ (∀ cs lines first f t j m, (after cs).compileLines LineForm.standards lines first = .ok f →
        t ∈ f.triggers → (after cs).serial? .trigger j = some m →
        (after cs).serial? .trigger t.identifier ≠ some m → t.answersTo j = false) := by
  intro apart
  have seen : (((after borrowed).compileLines LineForm.standards ["@enter"] 0).toOption.any
      fun f => f.triggers.any fun t => t.identifier = "enter" ∧ t.answersTo "join") = true := by
    decide +kernel
  obtain ⟨f, compiles, t, there, is⟩ := exists_trigger seen
  obtain ⟨identifier, answers⟩ := of_decide_eq_true is
  have join : (after borrowed).serial? .trigger "join" = some 0 := by decide +kernel
  have enter : (after borrowed).serial? .trigger "enter" ≠ some 0 := by decide +kernel
  rw [apart borrowed _ _ f t "join" 0 compiles there join (identifier ▸ enter)] at answers
  cases answers

/-- A compiled trigger answers to a spelling of a name of its component exactly if it differs from
the identifier of the trigger, or from a name of the component, in the case of ASCII letters alone;
so it answers to all spellings if these names are ASCII. -/
theorem compileLines_answers_spelling
    (compiles : (after cs).compileLines forms lines first = .ok f) (there : t ∈ f.triggers)
    {j : String}
    (same : (after cs).serial? .trigger j = (after cs).serial? .trigger t.identifier) :
    ∃ info, (after cs).describe .trigger t.identifier = some info ∧
      Shelf.keyOf j ∈ info.names.map Shelf.keyOf ∧
      (t.answersTo j = true ↔ ∃ name ∈ t.identifier :: info.names,
        Shelf.keyOf name = Shelf.keyOf j ∧ Text.foreign name.toList = Text.foreign j.toList) ∧
      ((∀ c ∈ j.toList, c.toNat < 128) → (∀ name ∈ info.names, ∀ c ∈ name.toList, c.toNat < 128) →
        t.answersTo j = true) := by
  obtain ⟨g, found, aliases⟩ := find?_of_trigger compiles there
  have told := (told_after cs).triggers
  have leads : (after cs).serial? .trigger j = some g.serial := by
    rw [same, serial?, found, Option.map_some]
  have named : Shelf.keyOf j ∈ g.info.names.map Shelf.keyOf := by
    obtain ⟨info, here, -, named, -⟩ := told.resolved leads
    cases here.symm.trans (told.registered found)
    exact named
  refine ⟨g.info, by rw [describe, found, Option.map_some], named, ?_, fun ascii asciiNames => ?_⟩
  · simp only [TriggerNode.answersTo_iff, aliases, Text.eqIgnoringAsciiCase_iff, Shelf.keyOf]
  · obtain ⟨name, listed, sameKey⟩ := List.mem_map.mp named
    rw [TriggerNode.answersTo_iff, aliases]
    exact ⟨name, List.mem_cons_of_mem _ listed,
      (Text.eqIgnoringAsciiCase_ascii (asciiNames name listed) ascii).mpr sameKey⟩

def accented : List Change :=
  [.register (.trigger Catalogue.join) "été" ["login"] none]

theorem compileLines_answers_spelling_accented :
    ∃ f, (after accented).compileLines LineForm.standards ["@Login"] 0 = .ok f ∧
      ∃ t ∈ f.triggers,
        (after accented).serial? .trigger "ÉTÉ" = (after accented).serial? .trigger t.identifier ∧
        ∃ info, (after accented).describe .trigger t.identifier = some info ∧
          Shelf.keyOf "ÉTÉ" ∈ info.names.map Shelf.keyOf ∧
          (t.answersTo "ÉTÉ" = true ↔ ∃ name ∈ t.identifier :: info.names,
            Shelf.keyOf name = Shelf.keyOf "ÉTÉ" ∧
              Text.foreign name.toList = Text.foreign "ÉTÉ".toList) ∧
          ((∀ c ∈ "ÉTÉ".toList, c.toNat < 128) →
            (∀ name ∈ info.names, ∀ c ∈ name.toList, c.toNat < 128) →
              t.answersTo "ÉTÉ" = true) := by
  have seen : (((after accented).compileLines LineForm.standards ["@Login"] 0).toOption.any
      fun f => f.triggers.any fun t => t.identifier = "Login") = true := by decide +kernel
  obtain ⟨f, compiles, t, there, is⟩ := exists_trigger seen
  have same : (after accented).serial? .trigger "ÉTÉ" =
      (after accented).serial? .trigger t.identifier := by
    rw [of_decide_eq_true is]
    decide +kernel
  exact ⟨f, compiles, t, there, same, compileLines_answers_spelling compiles there same⟩

/-- The registry finds the trigger in capital letters, and the trigger does not answer to them. -/
theorem accented_capitals :
    ¬ (∀ cs lines first f t j m, (after cs).compileLines LineForm.standards lines first = .ok f →
        t ∈ f.triggers → (after cs).serial? .trigger t.identifier = some m →
        (after cs).serial? .trigger j = some m → t.answersTo j = true) := by
  intro every
  have seen : (((after accented).compileLines LineForm.standards ["@été"] 0).toOption.any
      fun f => f.triggers.any fun t => t.identifier = "été" ∧ ¬ t.answersTo "ÉTÉ") = true := by
    decide +kernel
  obtain ⟨f, compiles, t, there, is⟩ := exists_trigger seen
  obtain ⟨identifier, silent⟩ := of_decide_eq_true is
  have own : (after accented).serial? .trigger "été" = some 0 := by decide +kernel
  have capitals : (after accented).serial? .trigger "ÉTÉ" = some 0 := by decide +kernel
  exact silent (every accented _ _ f t "ÉTÉ" 0 compiles there (identifier ▸ own) capitals)

end Registry

end Cuescript
