import Mathlib.Data.List.Forall2
import Cuescript.Engine.Basic
import Cuescript.Proofs.Forest.Faults

/-!
Scripts that are loaded together. They are compiled first, in order, and the table is only touched
once all of them are. Main statement: scripts load together exactly if each of them can be compiled,
and then the engine is as if they had been loaded one by one; else the error is that of the first
one that cannot, and the engine is as it was.
-/
namespace Cuescript.Engine

def Compiles (e : Engine) (c : ScriptConfig) : Prop :=
  Text.eqIgnoringAsciiCase c.parser ScriptConfig.flowParser = true ∧
    ∃ f, e.registry.compileLines LineForm.standards c.lines 0 = .ok f

inductive Refuses (e : Engine) (c : ScriptConfig) : EngineError → Prop
  | parser (unknown : Text.eqIgnoringAsciiCase c.parser ScriptConfig.flowParser = false) :
      Refuses e c (.unsupportedParser c.id c.parser)
  | lines {fault : CompileError}
      (known : Text.eqIgnoringAsciiCase c.parser ScriptConfig.flowParser = true)
      (faulty : FirstFault e.registry LineForm.standards c.lines fault) :
      Refuses e c (.compile c.id fault)

def loadEach (e : Engine) : List ScriptConfig → Except EngineError (List String) × Engine
  | [] => (.ok [], e)
  | c :: rest =>
    match e.load c with
    | (.error error, e) => (.error error, e)
    | (.ok id, e) =>
      match e.loadEach rest with
      | (.error error, e) => (.error error, e)
      | (.ok ids, e) => (.ok (id :: ids), e)

variable {e : Engine} {id : String} {c : ScriptConfig} {cs : List ScriptConfig} {s : Script}
  {ss : List Script} {next first : Nat} {error : EngineError}

/-! One script. -/

theorem compile_error_iff : e.compile c first = .error error ↔ e.Refuses c error := by
  constructor
  · intro fails
    rw [compile] at fails
    split at fails
    · rename_i unknown
      cases fails
      exact .parser (Bool.not_eq_true' _ ▸ unknown)
    · rename_i known
      split at fails
      · rename_i faulty
        cases fails
        exact .lines (by simpa using known) (Registry.compileLines_error_iff.mp faulty)
      · cases fails
  · rintro (unknown | ⟨known, faulty⟩)
    · rw [compile, unknown, if_pos (by decide)]
    · rw [compile, known, if_neg (by decide), Registry.compileLines_error_iff.mpr faulty]

/-- The node ids have no bearing on whether a script compiles. -/
theorem compiles_iff : e.Compiles c ↔ ∀ error, ¬ e.Refuses c error := by
  constructor
  · rintro ⟨known, f, compiled⟩ error (unknown | ⟨_, faulty⟩)
    · cases known.symm.trans unknown
    · rw [Registry.compileLines_error_iff.mpr faulty] at compiled
      cases compiled
  · intro accepted
    have known : Text.eqIgnoringAsciiCase c.parser ScriptConfig.flowParser = true := by
      by_contra unknown
      exact accepted _ (.parser (Bool.eq_false_iff.mpr unknown))
    refine ⟨known, ?_⟩
    cases compiled : e.registry.compileLines LineForm.standards c.lines 0 with
    | ok f => exact ⟨f, rfl⟩
    | error fault =>
      exact (accepted _ (.lines known (Registry.compileLines_error_iff.mp compiled))).elim

theorem id_of_compile (compiles : e.compile c first = .ok s) : s.id = c.id := by
  rw [compile] at compiles
  split at compiles
  · cases compiles
  · split at compiles <;> cases compiles
    rfl

theorem load_refused (refuses : (e.load c).1 = .error error) : (e.load c).2 = e := by
  rw [load] at refuses ⊢
  split
  · rfl
  · rename_i compiled
    rw [compiled] at refuses
    cases refuses

/-! Several scripts, compiled in order. -/

theorem compileAll_error_iff :
    e.compileAll next cs = .error error ↔ ∃ k, First e.Refuses cs k error := by
  induction cs generalizing next with
  | nil => exact iff_of_false nofun fun ⟨_, first⟩ => first.not_nil
  | cons c rest ih =>
    rw [compileAll]
    cases compiled : e.compile c next with
    | error cause =>
      have refused := compile_error_iff.mp compiled
      have only (other : EngineError) (refused' : e.Refuses c other) : other = cause :=
        Except.error.inj ((compile_error_iff.mpr refused').symm.trans compiled)
      simp only [First.head_iff refused only, exists_eq_left, Except.error.injEq, eq_comm]
    | ok s =>
      have fine (other : EngineError) : ¬ e.Refuses c other := by
        intro refused
        cases (compile_error_iff.mpr refused).symm.trans compiled
      simp only [First.tail_iff fine]
      rw [exists_comm]
      simp only [exists_eq_left, ← @ih (next + c.lines.length)]
      cases e.compileAll (next + c.lines.length) rest <;> simp

theorem compileAll_ok_iff :
    (∃ ss, e.compileAll next cs = .ok ss) ↔ ∀ c ∈ cs, e.Compiles c := by
  have refused : (∃ error, e.compileAll next cs = .error error) ↔
      ∃ c ∈ cs, ∃ error, e.Refuses c error := by
    simp only [compileAll_error_iff, ← First.exists_iff]
    exact exists_comm
  cases compiled : e.compileAll next cs with
  | ok ss =>
    rw [compiled] at refused
    refine iff_of_true ⟨ss, rfl⟩ fun c member => compiles_iff.mpr fun error bad => ?_
    obtain ⟨_, ⟨⟩⟩ := refused.mpr ⟨c, member, error, bad⟩
  | error error =>
    refine iff_of_false (by rintro ⟨_, ⟨⟩⟩) fun all => ?_
    obtain ⟨c, member, cause, bad⟩ := refused.mp ⟨error, compiled⟩
    exact compiles_iff.mp (all c member) cause bad

def Makes (e : Engine) (c : ScriptConfig) (s : Script) : Prop :=
  s.id = c.id ∧ ∃ first, e.compile c first = .ok s

theorem compileAll_makes (compiles : e.compileAll next cs = .ok ss) :
    List.Forall₂ e.Makes cs ss := by
  induction cs generalizing next ss with
  | nil =>
    cases compiles
    exact .nil
  | cons c rest ih =>
    rw [compileAll] at compiles
    split at compiles
    · cases compiles
    · rename_i s first
      split at compiles
      · cases compiles
      · rename_i tail others
        cases compiles
        exact .cons ⟨id_of_compile first, next, first⟩ (ih others)

theorem ids_ne (made : List.Forall₂ e.Makes cs ss) (other : ∀ c ∈ cs, c.id ≠ id) :
    ∀ s ∈ ss, s.id ≠ id := by
  induction made with
  | nil => nofun
  | cons made _ ih =>
    intro s member
    rcases List.mem_cons.mp member with rfl | member
    · rw [made.1]
      exact other _ List.mem_cons_self
    · exact ih (fun c member => other c (List.mem_cons_of_mem _ member)) s member

/-! Scripts put into the table. -/

theorem get?_foldl_other {t : Table String Script} {k : String} (other : ∀ s ∈ ss, s.id ≠ k) :
    (ss.foldl (fun t s => t.set s.id s) t).get? k = t.get? k := by
  induction ss generalizing t with
  | nil => rfl
  | cons s rest ih =>
    rw [List.foldl_cons, ih fun s member => other s (List.mem_cons_of_mem _ member),
      Table.get?_set_ne _ _ (other s List.mem_cons_self).symm]

theorem get?_foldl_last {t : Table String Script} {before rest : List Script}
    (last : ∀ s' ∈ rest, s'.id ≠ s.id) :
    ((before ++ s :: rest).foldl (fun t s => t.set s.id s) t).get? s.id = some s := by
  rw [List.foldl_append, List.foldl_cons, get?_foldl_other last, Table.get?_set_same]

theorem addScripts_append (e : Engine) (cs cs' : List ScriptConfig) (ss ss' : List Script) :
    (e.addScripts cs ss).addScripts cs' ss' = e.addScripts (cs ++ cs') (ss ++ ss') := by
  simp only [addScripts, List.foldl_append]

/-- Scripts that are added have no bearing on how others compile. -/
theorem compileAll_addScripts (e : Engine) (cs : List ScriptConfig) (ss : List Script)
    (next : Nat) (others : List ScriptConfig) :
    (e.addScripts cs ss).compileAll next others = e.compileAll next others := by
  induction others generalizing next with
  | nil => rfl
  | cons c rest ih =>
    rw [compileAll, compileAll, ih]
    rfl

theorem loadEach_of_compileAll (compiles : e.compileAll e.nextNode cs = .ok ss) :
    e.loadEach cs = (.ok (ss.map (·.id)), e.addScripts cs ss) := by
  induction cs generalizing e ss with
  | nil =>
    cases compiles
    rfl
  | cons c rest ih =>
    rw [compileAll] at compiles
    split at compiles
    · cases compiles
    · rename_i s first
      split at compiles
      · cases compiles
      · rename_i tail others
        cases compiles
        have loaded : e.load c = (.ok s.id, e.addScripts [c] [s]) := by
          rw [load, first, id_of_compile first]
        have after : (e.addScripts [c] [s]).loadEach rest = _ :=
          ih ((compileAll_addScripts ..).trans others)
        rw [loadEach, loaded]
        dsimp only
        rw [after, addScripts_append]
        rfl

theorem loadAll_ok {ids : List String} (loaded : (e.loadAll cs).1 = .ok ids) :
    ∃ ss, e.compileAll e.nextNode cs = .ok ss ∧
      e.loadAll cs = (.ok (ss.map (·.id)), e.addScripts cs ss) := by
  rw [loadAll] at loaded ⊢
  split
  · rename_i refused
    rw [refused] at loaded
    cases loaded
  · rename_i ss compiles
    exact ⟨ss, compiles, rfl⟩

theorem loadAll_error_iff :
    (e.loadAll cs).1 = .error error ↔ e.compileAll e.nextNode cs = .error error := by
  rw [loadAll]
  cases e.compileAll e.nextNode cs <;> simp

theorem map_id_of_makes (made : List.Forall₂ e.Makes cs ss) : ss.map (·.id) = cs.map (·.id) := by
  induction made with
  | nil => rfl
  | cons made _ ih => rw [List.map_cons, List.map_cons, made.1, ih]

structure Together (e : Engine) (cs : List ScriptConfig) : Prop where
  succeeds : (∃ ids, (e.loadAll cs).1 = .ok ids) ↔ ∀ c ∈ cs, e.Compiles c
  counted : ∀ ids, (e.loadAll cs).1 = .ok ids → ids = cs.map (·.id) ∧ ids.length = cs.length
  /-- The engine is as if the scripts had been loaded one by one. -/
  inTurn : ∀ ids, (e.loadAll cs).1 = .ok ids → e.loadEach cs = e.loadAll cs
  /-- Of the scripts with one id the last one is in the table. -/
  last : ∀ ids, (e.loadAll cs).1 = .ok ids → ∀ before c rest,
    cs = before ++ c :: rest → (∀ c' ∈ rest, c'.id ≠ c.id) →
      ∃ s, e.Makes c s ∧ (e.loadAll cs).2.scripts.get? c.id = some s
  others : ∀ id, (∀ c ∈ cs, c.id ≠ id) → (e.loadAll cs).2.scripts.get? id = e.scripts.get? id
  /-- The error is that of the first script that is refused. -/
  refused : ∀ error, (e.loadAll cs).1 = .error error ↔ ∃ k, First e.Refuses cs k error
  unchanged : ∀ error, (e.loadAll cs).1 = .error error → (e.loadAll cs).2 = e
  alone : ∀ c error, (e.load c).1 = .error error → (e.load c).2 = e

theorem loadAll_together (e : Engine) (cs : List ScriptConfig) : Together e cs where
  succeeds := by
    rw [← @compileAll_ok_iff e cs e.nextNode]
    constructor
    · rintro ⟨ids, loaded⟩
      obtain ⟨ss, compiles, -⟩ := loadAll_ok loaded
      exact ⟨ss, compiles⟩
    · rintro ⟨ss, compiles⟩
      exact ⟨ss.map (·.id), by rw [loadAll, compiles]⟩
  counted ids loaded := by
    obtain ⟨ss, compiles, is⟩ := loadAll_ok loaded
    rw [is] at loaded
    cases loaded
    have same := map_id_of_makes (compileAll_makes compiles)
    exact ⟨same, by rw [same, List.length_map]⟩
  inTurn ids loaded := by
    obtain ⟨ss, compiles, is⟩ := loadAll_ok loaded
    rw [is, loadEach_of_compileAll compiles]
  last ids loaded before c rest split fresh := by
    obtain ⟨ss, compiles, is⟩ := loadAll_ok loaded
    have made := List.forall₂_drop before.length (compileAll_makes compiles)
    rw [split, List.drop_left] at made
    obtain ⟨s, back, makes, rest', whole⟩ := List.forall₂_cons_left_iff.mp made
    refine ⟨s, makes, ?_⟩
    rw [is, addScripts, ← List.take_append_drop before.length ss, whole, ← makes.1]
    exact get?_foldl_last (makes.1 ▸ ids_ne rest' fresh)
  others id fresh := by
    rw [loadAll]
    split
    · rfl
    · rename_i ss compiles
      exact get?_foldl_other (ids_ne (compileAll_makes compiles) fresh)
  refused _ := loadAll_error_iff.trans compileAll_error_iff
  unchanged error refused := by
    rw [loadAll, loadAll_error_iff.mp refused]
  alone _ _ := load_refused

end Cuescript.Engine
