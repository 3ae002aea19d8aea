import Cuescript.Proofs.Directive.Listing
import Cuescript.Proofs.Forest.Resolved

/-!
What is reported of a script that cannot be compiled. Lines are read before any of them is looked
up, so a line that cannot be read comes first, wherever it stands; of the others the first one
counts. Main statement: a script compiles exactly if each of its lines does alone, and else the
error is that of its first fault, with the number of the line.
-/
namespace Cuescript

/-- The element at `k` is the first of `xs` that fails, and it fails with `e`. -/
structure First {α ε : Type} (fails : α → ε → Prop) (xs : List α) (k : Nat) (e : ε) : Prop where
  here : ∃ x, xs[k]? = some x ∧ fails x e
  before : ∀ j < k, ∀ x, xs[j]? = some x → ∀ d, ¬ fails x d

namespace First

variable {α ε : Type} {fails : α → ε → Prop} {x : α} {xs : List α} {k : Nat} {e : ε}

theorem not_nil : ¬ First fails [] k e := fun first => by simpa using first.here

theorem head_iff {d : ε} (bad : fails x e) (only : ∀ c, fails x c → c = e) :
    First fails (x :: xs) k d ↔ k = 0 ∧ d = e := by
  constructor
  · rintro ⟨⟨y, is, bad'⟩, before⟩
    cases k with
    | zero =>
      cases is
      exact ⟨rfl, only d bad'⟩
    | succ k => exact (before 0 (Nat.succ_pos k) x rfl e bad).elim
  · rintro ⟨rfl, rfl⟩
    exact ⟨⟨x, rfl, bad⟩, nofun⟩

theorem tail_iff (fine : ∀ c, ¬ fails x c) :
    First fails (x :: xs) k e ↔ ∃ i, k = i + 1 ∧ First fails xs i e := by
  constructor
  · rintro ⟨⟨y, is, bad⟩, before⟩
    cases k with
    | zero =>
      cases is
      exact (fine e bad).elim
    | succ k =>
      exact ⟨k, rfl, ⟨y, is, bad⟩, fun j less => before (j + 1) (Nat.succ_lt_succ less)⟩
  · rintro ⟨i, rfl, ⟨y, is, bad⟩, before⟩
    refine ⟨⟨y, is, bad⟩, fun j less z there => ?_⟩
    cases j with
    | zero =>
      cases there
      exact fine
    | succ j => exact before j (Nat.lt_of_succ_lt_succ less) z there

theorem exists_iff (fails : α → ε → Prop) (xs : List α) :
    (∃ k e, First fails xs k e) ↔ ∃ x ∈ xs, ∃ e, fails x e := by
  constructor
  · rintro ⟨k, e, ⟨x, is, bad⟩, _⟩
    exact ⟨x, List.mem_of_getElem? is, e, bad⟩
  · rintro ⟨x, member, e, bad⟩
    induction xs with
    | nil => cases member
    | cons y rest ih =>
      by_cases fine : ∃ d, fails y d
      · obtain ⟨d, bad'⟩ := fine
        exact ⟨0, d, ⟨y, rfl, bad'⟩, nofun⟩
      · rcases List.mem_cons.mp member with rfl | member
        · exact (fine ⟨e, bad⟩).elim
        · obtain ⟨k, d, first⟩ := ih member
          exact ⟨k + 1, d, (tail_iff (not_exists.mp fine)).mpr ⟨k, rfl, first⟩⟩

end First

def Reported (fails : String → CompileCause → Prop) (total index : Nat) (lines : List String)
    (e : CompileError) : Prop :=
  ∃ k cause, First fails lines k cause ∧ e = ⟨cause, index + k, total⟩

namespace Reported

variable {fails : String → CompileCause → Prop} {total index : Nat} {line : String}
  {lines : List String} {cause : CompileCause} {e : CompileError}

theorem not_nil : ¬ Reported fails total index [] e := fun ⟨_, _, first, _⟩ => first.not_nil

theorem head_iff (bad : fails line cause) (only : ∀ c, fails line c → c = cause) :
    Reported fails total index (line :: lines) e ↔ e = ⟨cause, index, total⟩ := by
  simp only [Reported, First.head_iff bad only]
  constructor
  · rintro ⟨_, _, ⟨rfl, rfl⟩, rfl⟩
    rfl
  · rintro rfl
    exact ⟨0, cause, ⟨rfl, rfl⟩, rfl⟩

theorem tail_iff (fine : ∀ c, ¬ fails line c) :
    Reported fails total index (line :: lines) e ↔ Reported fails total (index + 1) lines e := by
  simp only [Reported, First.tail_iff fine]
  constructor
  · rintro ⟨_, cause, ⟨k, rfl, first⟩, rfl⟩
    exact ⟨k, cause, first, by rw [Nat.add_right_comm, Nat.add_assoc]⟩
  · rintro ⟨k, cause, first, rfl⟩
    exact ⟨k + 1, cause, ⟨k, rfl, first⟩, by rw [Nat.add_right_comm, Nat.add_assoc]⟩

theorem exists_iff :
    (∃ e, Reported fails total index lines e) ↔ ∃ line ∈ lines, ∃ c, fails line c := by
  rw [← First.exists_iff]
  constructor
  · rintro ⟨_, k, cause, first, rfl⟩
    exact ⟨k, cause, first⟩
  · rintro ⟨k, cause, first⟩
    exact ⟨_, k, cause, first, rfl⟩

end Reported

theorem map_error_iff {ε α β : Type} {x : Except ε α} {f : α → β} {e : ε} :
    x.map f = .error e ↔ x = .error e := by
  cases x with
  | error d =>
    constructor <;>
      · rintro ⟨⟩
        rfl
  | ok a => exact iff_of_false nofun nofun

namespace LineForm

theorem readBody_at (form : LineForm) (line : String) (index other : Nat) (body : List Char) :
    form.readBody line other body =
      (form.readBody line index body).map fun d => { d with line := other } := by
  simp only [readBody]
  split
  · rfl
  · split
    · rfl
    · split <;> rfl

theorem read_at (form : LineForm) (line : String) (index other : Nat) :
    form.read line other = (form.read line index).map fun d => { d with line := other } := by
  simp only [read]
  split
  · split
    · exact readBody_at ..
    · rfl
  · rfl

end LineForm

namespace Listing

variable {forms : List LineForm} {line : String} {cause : CompileCause}

theorem readLine_at (forms : List LineForm) (line : String) (index other : Nat) :
    readLine forms line other =
      (readLine forms line index).map (Option.map fun d => { d with line := other }) := by
  simp only [readLine]
  split
  · rfl
  · split
    · rfl
    · rename_i form _
      rw [form.read_at _ index other]
      cases form.read (Text.trimmed line) index <;> rfl

/-- Why a line cannot be read: no form accepts it, or the first form that does cannot read it. -/
inductive Unreadable (forms : List LineForm) (line : String) : CompileCause → Prop
  | unaccepted (kept : isSkipped line = false)
      (none : ∀ form ∈ forms, form.accepts (Text.trimmed line) = false) :
      Unreadable forms line (.noMatchingForm (Text.trimmed line))
  | malformed {form : LineForm} {e : LineError} (kept : isSkipped line = false)
      (first : forms.find? (·.accepts (Text.trimmed line)) = some form)
      (fails : form.read (Text.trimmed line) 1 = .error e) : Unreadable forms line (.line e)

theorem readLine_error_iff :
    readLine forms line 1 = .error cause ↔ Unreadable forms line cause := by
  constructor
  · intro fails
    simp only [readLine] at fails
    split at fails
    · cases fails
    · rename_i kept
      have kept := Bool.eq_false_iff.mpr kept
      split at fails
      · rename_i absent
        cases fails
        exact .unaccepted kept fun form member =>
          Bool.eq_false_iff.mpr (List.find?_eq_none.mp absent form member)
      · rename_i form first
        cases is : form.read (Text.trimmed line) 1 with
        | error e =>
          rw [is] at fails
          cases fails
          exact .malformed kept first is
        | ok d =>
          rw [is] at fails
          cases fails
  · intro unreadable
    cases unreadable with
    | unaccepted kept none =>
      have absent : forms.find? (·.accepts (Text.trimmed line)) = Option.none :=
        List.find?_eq_none.mpr fun form member => Bool.eq_false_iff.mp (none form member)
      simp only [readLine, kept, absent]
      rfl
    | malformed kept first fails =>
      simp only [readLine, kept, first, fails]
      rfl

theorem readFrom_cons {total index : Nat} {rest : List String} {d : Option Directive}
    (read : readLine forms line index = .ok d) :
    readFrom forms total index (line :: rest) =
      (readFrom forms total (index + 1) rest).map (d.toList ++ ·) := by
  rw [readFrom, read]
  dsimp only
  cases readFrom forms total (index + 1) rest <;> rfl

theorem Unreadable.unique {c d : CompileCause} (one : Unreadable forms line c)
    (other : Unreadable forms line d) : d = c :=
  Except.error.inj ((readLine_error_iff.mpr other).symm.trans (readLine_error_iff.mpr one))

theorem readable_of_readLine {index : Nat} {d : Option Directive}
    (read : readLine forms line index = .ok d) (cause : CompileCause) :
    ¬ Unreadable forms line cause := by
  intro unreadable
  rw [readLine_at forms line 1 index, readLine_error_iff.mpr unreadable] at read
  cases read

theorem readFrom_error_iff {total index : Nat} {lines : List String} {e : CompileError} :
    readFrom forms total index lines = .error e ↔
      Reported (Unreadable forms) total index lines e := by
  induction lines generalizing index with
  | nil => exact iff_of_false nofun Reported.not_nil
  | cons line rest ih =>
    cases is : readLine forms line index with
    | error cause =>
      have bad : Unreadable forms line cause := by
        rw [← readLine_error_iff, readLine_at forms line index 1, is]
        rfl
      rw [Reported.head_iff bad fun _ => bad.unique]
      simp only [readFrom, is]
      exact ⟨fun h => (Except.error.inj h).symm, fun h => h ▸ rfl⟩
    | ok d =>
      rw [readFrom_cons is, map_error_iff, ih, Reported.tail_iff (readable_of_readLine is)]

end Listing

/-- Why no node can be made of a directive, given what its identifier leads to: there is nothing,
else its node options do not bind, else the options of its component do not. -/
inductive Directive.Unmade {γ α : Type} (d : Directive) (factory : Option (Factory α))
    (bindConfig : String → Except Options.BindError γ) : CompileCause → Prop
  | unknown (absent : factory = none) :
      Unmade d factory bindConfig (.unknownIdentifier d.kind d.identifier)
  | nodeOptions {f : Factory α} {e : Options.BindError} (known : factory = some f)
      (fails : bindConfig d.nodeOptions = .error e) : Unmade d factory bindConfig (.bind e)
  | options {f : Factory α} {config : γ} {e : Options.BindError} (known : factory = some f)
      (bound : bindConfig d.nodeOptions = .ok config) (fails : f.create d.options = .error e) :
      Unmade d factory bindConfig (.bind e)

def Directive.Fault (d : Directive) (r : Registry) (cause : CompileCause) : Prop :=
  match d.kind with
  | .action => d.Unmade (r.actions.find? d.identifier) ActionConfig.bind cause
  | .requirement => d.Unmade (r.requirements.find? d.identifier) RequirementConfig.bind cause
  | .trigger => d.Unmade (r.triggers.find? d.identifier) TriggerConfig.bind cause

namespace Directive

variable {d : Directive} {r : Registry} {cause : CompileCause}

theorem instantiate_error_iff {γ α : Type} {factory : Option (Factory α)}
    {bindConfig : String → Except Options.BindError γ} :
    d.instantiate factory bindConfig = .error cause ↔ d.Unmade factory bindConfig cause := by
  constructor
  · intro fails
    simp only [instantiate] at fails
    split at fails
    · cases fails
      exact .unknown rfl
    · split at fails
      · rename_i is
        cases fails
        exact .nodeOptions rfl is
      · rename_i bound
        split at fails
        · rename_i is
          cases fails
          exact .options rfl bound is
        · cases fails
  · intro unmade
    cases unmade with
    | unknown absent => rw [absent, instantiate]
    | nodeOptions known fails => simp only [instantiate, known, fails]
    | options known bound fails => simp only [instantiate, known, bound, fails]

theorem resolve_error_iff (id : NodeId) : d.resolve r id = .error cause ↔ d.Fault r cause := by
  unfold resolve Fault
  cases d.kind <;> exact map_error_iff.trans instantiate_error_iff

theorem Fault.unique {c : CompileCause} (one : d.Fault r cause) (other : d.Fault r c) : c = cause :=
  Except.error.inj
    (((resolve_error_iff ⟨0⟩).mpr other).symm.trans ((resolve_error_iff ⟨0⟩).mpr one))

theorem Fault.renumber (index : Nat) :
    Directive.Fault { d with line := index } r cause ↔ d.Fault r cause := by
  rw [← resolve_error_iff ⟨0⟩, ← resolve_error_iff ⟨0⟩]
  exact Iff.rfl

end Directive

namespace Registry

variable {r : Registry} {forms : List LineForm} {line : String} {lines : List String}
  {cause : CompileCause} {e : CompileError} {total index : Nat}

def Unresolved (r : Registry) (forms : List LineForm) (line : String) (cause : CompileCause) :
    Prop :=
  ∃ d, Listing.readLine forms line 1 = .ok (some d) ∧ d.Fault r cause

theorem unresolved_iff {d : Option Directive} (read : Listing.readLine forms line index = .ok d) :
    r.Unresolved forms line cause ↔ ∃ d', d = some d' ∧ d'.Fault r cause := by
  rw [Unresolved, Listing.readLine_at forms line index 1, read]
  cases d with
  | none => exact iff_of_false (by rintro ⟨_, ⟨⟩, _⟩) (by rintro ⟨_, ⟨⟩, _⟩)
  | some d =>
    constructor
    · rintro ⟨_, ⟨rfl⟩, fault⟩
      exact ⟨d, rfl, (Directive.Fault.renumber 1).mp fault⟩
    · rintro ⟨_, ⟨rfl⟩, fault⟩
      exact ⟨_, rfl, (Directive.Fault.renumber 1).mpr fault⟩

theorem resolveAll_error_iff {next : Nat} {ds : List Directive}
    (read : Listing.readFrom forms total index lines = .ok ds) :
    r.resolveAll total next ds = .error e ↔ Reported (r.Unresolved forms) total index lines e := by
  induction lines generalizing index next ds with
  | nil =>
    cases read
    exact iff_of_false nofun Reported.not_nil
  | cons line rest ih =>
    cases is : Listing.readLine forms line index with
    | error cause =>
      simp only [Listing.readFrom, is] at read
      cases read
    | ok first =>
      rw [Listing.readFrom_cons is] at read
      obtain ⟨tail, read', rfl⟩ := map_ok read
      cases first with
      | none =>
        have fine : ∀ c, ¬ r.Unresolved forms line c := fun c bad => by
          obtain ⟨_, ⟨⟩, _⟩ := (unresolved_iff is).mp bad
        rw [Reported.tail_iff fine]
        exact ih read'
      | some d =>
        have judge (c : CompileCause) : r.Unresolved forms line c ↔ d.Fault r c := by
          simp only [unresolved_iff is, Option.some.injEq, exists_eq_left']
        cases made : d.resolve r ⟨next⟩ with
        | error cause =>
          have fault : d.Fault r cause := (Directive.resolve_error_iff ⟨next⟩).mp made
          have alone (c : CompileCause) (bad : r.Unresolved forms line c) : c = cause :=
            fault.unique ((judge c).mp bad)
          rw [Reported.head_iff ((judge cause).mpr fault) alone]
          simp only [Option.toList_some, List.singleton_append, resolveAll, made,
            Listing.line_of_readLine is]
          exact ⟨fun h => (Except.error.inj h).symm, fun h => h ▸ rfl⟩
        | ok item =>
          have fine : ∀ c, ¬ r.Unresolved forms line c := fun c bad => by
            have := (Directive.resolve_error_iff ⟨next⟩).mpr ((judge c).mp bad)
            rw [made] at this
            cases this
          have later := @ih (index + 1) (next + 1) tail read'
          rw [Reported.tail_iff fine, ← later]
          simp only [Option.toList_some, List.singleton_append, resolveAll, made]
          cases r.resolveAll total (next + 1) tail <;> simp

end Registry

/-- The error of a script: that of its first line that cannot be read, and if all can be read that
of the first line whose directive cannot be resolved. -/
def FirstFault (r : Registry) (forms : List LineForm) (lines : List String) (e : CompileError) :
    Prop :=
  Reported (Listing.Unreadable forms) lines.length 1 lines e ∨
    (∀ line ∈ lines, ∀ c, ¬ Listing.Unreadable forms line c) ∧
      Reported (r.Unresolved forms) lines.length 1 lines e

theorem FirstFault.exists_iff {r : Registry} {forms : List LineForm} {lines : List String} :
    (∃ e, FirstFault r forms lines e) ↔
      ∃ line ∈ lines, ∃ c, Listing.Unreadable forms line c ∨ r.Unresolved forms line c := by
  constructor
  · rintro ⟨e, unread | ⟨-, unresolved⟩⟩
    · obtain ⟨line, member, c, bad⟩ := Reported.exists_iff.mp ⟨e, unread⟩
      exact ⟨line, member, c, .inl bad⟩
    · obtain ⟨line, member, c, bad⟩ := Reported.exists_iff.mp ⟨e, unresolved⟩
      exact ⟨line, member, c, .inr bad⟩
  · rintro ⟨line, member, c, bad⟩
    by_cases all : ∃ line ∈ lines, ∃ c, Listing.Unreadable forms line c
    · obtain ⟨e, unread⟩ := Reported.exists_iff.mpr all
      exact ⟨e, .inl unread⟩
    · have read : ∀ line ∈ lines, ∀ c, ¬ Listing.Unreadable forms line c :=
        fun line member c unreadable => all ⟨line, member, c, unreadable⟩
      have unresolved := bad.resolve_left (read line member c)
      obtain ⟨e, reported⟩ := Reported.exists_iff.mpr ⟨line, member, c, unresolved⟩
      exact ⟨e, .inr ⟨read, reported⟩⟩

namespace Registry

variable {r : Registry} {forms : List LineForm} {lines : List String} {first : Nat}
  {e : CompileError}

theorem compileLines_error_iff :
    r.compileLines forms lines first = .error e ↔ FirstFault r forms lines e := by
  cases read : Listing.readFrom forms lines.length 1 lines with
  | error d =>
    have all : ¬ ∀ line ∈ lines, ∀ c, ¬ Listing.Unreadable forms line c := fun none => by
      obtain ⟨line, member, c, bad⟩ :=
        Reported.exists_iff.mp ⟨d, Listing.readFrom_error_iff.mp read⟩
      exact none line member c bad
    have is : r.compileLines forms lines first = .error d := by
      rw [compileLines, Listing.read, read]
      rfl
    rw [FirstFault, ← Listing.readFrom_error_iff, is, read, or_iff_left fun both => all both.1,
      Except.error.injEq, Except.error.injEq]
  | ok ds =>
    have unread (d : CompileError) :
        ¬ Reported (Listing.Unreadable forms) lines.length 1 lines d := by
      rw [← Listing.readFrom_error_iff, read]
      rintro ⟨⟩
    have all : ∀ line ∈ lines, ∀ c, ¬ Listing.Unreadable forms line c :=
      fun line member c bad => by
        obtain ⟨d, reported⟩ := Reported.exists_iff.mpr ⟨line, member, c, bad⟩
        exact unread d reported
    have is : r.compileLines forms lines first =
        (r.resolveAll lines.length first ds).map Forest.ofItems := by
      rw [compileLines, Listing.read, read]
      rfl
    rw [FirstFault, or_iff_right (unread e), and_iff_right all, ← resolveAll_error_iff read, is,
      map_error_iff]

theorem compileLines_ok_iff :
    (∃ f, r.compileLines forms lines first = .ok f) ↔
      ∀ line ∈ lines, ∀ c, ¬ (Listing.Unreadable forms line c ∨ r.Unresolved forms line c) := by
  have faulty : (∃ e, r.compileLines forms lines first = .error e) ↔
      ∃ line ∈ lines, ∃ c, Listing.Unreadable forms line c ∨ r.Unresolved forms line c := by
    simp only [compileLines_error_iff, FirstFault.exists_iff]
  cases is : r.compileLines forms lines first with
  | ok f =>
    rw [is] at faulty
    refine iff_of_true ⟨f, rfl⟩ fun line member c bad => ?_
    obtain ⟨e, ⟨⟩⟩ := faulty.mpr ⟨line, member, c, bad⟩
  | error e =>
    rw [is] at faulty
    refine iff_of_false (by rintro ⟨f, ⟨⟩⟩) fun fine => ?_
    obtain ⟨line, member, c, bad⟩ := faulty.mp ⟨e, rfl⟩
    exact fine line member c bad

/-- A script compiles exactly if each of its lines does on its own; the error of one that does not
is that of its first fault. -/
theorem compileLines_judged (r : Registry) (forms : List LineForm) (lines : List String)
    (first alone : Nat) :
    ((∃ f, r.compileLines forms lines first = .ok f) ↔
      ∀ line ∈ lines, ∃ f, r.compileLines forms [line] alone = .ok f) ∧
    ∀ e, r.compileLines forms lines first = .error e ↔ FirstFault r forms lines e := by
  refine ⟨?_, fun e => compileLines_error_iff⟩
  simp only [compileLines_ok_iff, List.mem_singleton, forall_eq]

end Registry

end Cuescript
