import Mathlib.Data.List.Forall2
import Mathlib.Data.Option.NAry
import Cuescript.Proofs.Futures.Growth

/-!
What a future will come to. Read off the wiring, the outcome of a future is a conjunction of
outcomes that are known and of those of tasks that are still to complete. Main statement: a future
has its outcome as soon as no task is left in it, and then the outcome is that conjunction.
-/
namespace Cuescript

/-- A conjunction of outcomes that are known and of those of tasks, which go by their futures. -/
inductive Prospect where
  | given (o : Outcome)
  | task (f : FutureId)
  | both (a b : Prospect)

namespace Prospect

def tasks : Prospect → List FutureId
  | .given _ => []
  | .task f => [f]
  | .both a b => a.tasks ++ b.tasks

/-- The outcome if the tasks end as `ends` says. -/
def eval (ends : FutureId → Option Outcome) : Prospect → Option Outcome
  | .given o => some o
  | .task f => ends f
  | .both a b => Option.map₂ Outcome.both (a.eval ends) (b.eval ends)

/-- The outcome as far as it is known while no task has ended. -/
def value? (e : Prospect) : Option Outcome := e.eval fun _ => none

def replace (e : Prospect) (t : FutureId) (d : Prospect) : Prospect :=
  match e with
  | .given o => .given o
  | .task f => if f = t then d else .task f
  | .both a b => .both (a.replace t d) (b.replace t d)

def all : List Prospect → Prospect
  | [] => .given .empty
  | [e] => e
  | es => es.foldl .both (.given .empty)

variable {e d : Prospect} {t f : FutureId} {ends : FutureId → Option Outcome}

theorem value?_eq_none_iff : e.value? = none ↔ e.tasks ≠ [] := by
  induction e with
  | given o => simp [value?, eval, tasks]
  | task f => simp [value?, eval, tasks]
  | both a b iha ihb =>
    simp only [value?, eval, tasks, Option.map₂_eq_none_iff, ne_eq, List.append_eq_nil_iff,
      not_and_or] at iha ihb ⊢
    exact or_congr iha ihb

theorem eval_replace : (e.replace t d).eval ends =
    e.eval fun f => if f = t then d.eval ends else ends f := by
  induction e with
  | given o => rfl
  | task f =>
    simp only [replace, eval]
    split <;> rfl
  | both a b iha ihb => simp only [replace, eval, iha, ihb]

theorem mem_tasks_replace :
    f ∈ (e.replace t d).tasks ↔ f ∈ e.tasks ∧ f ≠ t ∨ t ∈ e.tasks ∧ f ∈ d.tasks := by
  induction e with
  | given o => simp [replace, tasks]
  | task g =>
    simp only [replace, tasks, List.mem_singleton]
    split
    · rename_i same
      subst same
      simp
    · rename_i apart
      simp only [tasks, List.mem_singleton, Ne.symm apart, false_and, or_false]
      constructor
      · rintro rfl
        exact ⟨rfl, apart⟩
      · exact And.left
  | both a b iha ihb =>
    simp only [replace, tasks, List.mem_append, iha, ihb, or_and_right]
    exact or_or_or_comm

theorem replace_of_not_mem (absent : t ∉ e.tasks) : e.replace t d = e := by
  induction e with
  | given o => rfl
  | task f =>
    have apart : f ≠ t := fun same => absent (same ▸ List.mem_singleton_self f)
    simp only [replace, if_neg apart]
  | both a b iha ihb =>
    simp only [tasks, List.mem_append, not_or] at absent
    simp only [replace, iha absent.1, ihb absent.2]

theorem tasks_all (es : List Prospect) : (all es).tasks = es.flatMap tasks := by
  have fold : ∀ (es : List Prospect) (e : Prospect),
      (es.foldl .both e).tasks = e.tasks ++ es.flatMap tasks := by
    intro es
    induction es with
    | nil => simp
    | cons d rest ih => simp [ih, tasks]
  match es with
  | [] => rfl
  | [e] => simp [all]
  | e :: d :: rest => simpa [all, tasks] using fold (e :: d :: rest) (.given .empty)

theorem replace_all (es : List Prospect) :
    (all es).replace t d = all (es.map (·.replace t d)) := by
  have fold : ∀ (es : List Prospect) (e : Prospect),
      (es.foldl .both e).replace t d =
        (es.map (·.replace t d)).foldl .both (e.replace t d) := by
    intro es
    induction es with
    | nil => simp
    | cons d rest ih => simp [ih, replace]
  match es with
  | [] => rfl
  | [e] => rfl
  | e :: d :: rest => exact fold (e :: d :: rest) (.given .empty)

structure Substitution (σ : Prospect → Prospect) : Prop where
  given : ∀ o, σ (.given o) = .given o
  all : ∀ es, σ (.all es) = .all (es.map σ)

namespace Substitution

theorem id : Substitution id := ⟨fun _ => rfl, fun es => by rw [List.map_id]; rfl⟩

theorem replace (t : FutureId) (d : Prospect) : Substitution (·.replace t d) :=
  ⟨fun _ => rfl, fun es => replace_all es⟩

theorem comp {σ τ : Prospect → Prospect} (first : Substitution σ) (second : Substitution τ) :
    Substitution fun e => τ (σ e) where
  given o := by rw [first.given, second.given]
  all es := by rw [first.all, second.all, List.map_map]; rfl

end Substitution

/-- As with the places of a join, the conjunction is known when all of its parts are. -/
theorem eval_all (es : List Prospect) (g : FutureId) :
    (all es).eval ends = (Join.mk g (es.map (eval ends))).result? := by
  have fold : ∀ (es : List Prospect) (e : Prospect),
      (es.foldl .both e).eval ends = if (es.map (eval ends)).all Option.isSome then
        (e.eval ends).map fun o => ((es.map (eval ends)).filterMap id).foldl Outcome.both o
      else none := by
    intro es
    induction es with
    | nil => simp
    | cons d rest ih =>
      intro e
      rw [List.foldl_cons, ih]
      cases first : d.eval ends <;> cases before : e.eval ends <;> simp [eval, first, before]
  match es with
  | [] => rfl
  | [e] => cases is : e.eval ends <;> simp [all, Join.result?, is, Outcome.all]
  | e :: d :: rest => exact fold (e :: d :: rest) (.given .empty)

end Prospect

namespace Wiring

inductive Reads (w : Wiring) : FutureId → Prospect → Prop
  | given {f : FutureId} {o : Outcome} (way : w[f.number]? = some (.given o)) : Reads w f (.given o)
  | task {f : FutureId} (way : w[f.number]? = some .task) : Reads w f (.task f)
  | relay {f h : FutureId} {e : Prospect} (way : w[f.number]? = some (.relay h))
      (source : Reads w h e) : Reads w f e
  | join {f : FutureId} {j : Nat} {fs : List FutureId} {es : List Prospect}
      (way : w[f.number]? = some (.join j fs.length fs)) (length : fs.length = es.length)
      (parts : ∀ (k : Nat) h e, fs[k]? = some h → es[k]? = some e → Reads w h e) :
      Reads w f (.all es)

def tasksFrom (n : Nat) : Wiring → List FutureId
  | [] => []
  | .task :: rest => ⟨n⟩ :: tasksFrom (n + 1) rest
  | _ :: rest => tasksFrom (n + 1) rest

variable {w : Wiring} {f g h : FutureId} {e d : Prospect}

theorem tasksFrom_append (w more : Wiring) (n : Nat) :
    tasksFrom n (w ++ more) = tasksFrom n w ++ tasksFrom (n + w.length) more := by
  induction w generalizing n with
  | nil => rfl
  | cons way rest ih =>
    have shift : n + 1 + rest.length = n + (rest.length + 1) := by omega
    cases way <;> simp [tasksFrom, ih, shift]

theorem mem_tasksFrom {n : Nat} :
    f ∈ tasksFrom n w ↔ n ≤ f.number ∧ w[f.number - n]? = some .task := by
  induction w generalizing n with
  | nil => simp [tasksFrom]
  | cons way rest ih =>
    have apart : f = ⟨n⟩ ↔ f.number = n := ⟨congrArg FutureId.number, congrArg FutureId.mk⟩
    have here : f ∈ tasksFrom n (way :: rest) ↔
        f.number = n ∧ way = .task ∨ f ∈ tasksFrom (n + 1) rest := by
      cases way <;> simp [tasksFrom, apart]
    rw [here, ih]
    rcases Nat.lt_trichotomy f.number n with before | at_n | behind
    · constructor
      · rintro (⟨same, _⟩ | ⟨beyond, _⟩) <;> omega
      · rintro ⟨beyond, _⟩
        omega
    · subst at_n
      have beyond : ¬ f.number + 1 ≤ f.number := by omega
      simp [beyond]
    · have shift : f.number - n = f.number - (n + 1) + 1 := by omega
      rw [shift, List.getElem?_cons_succ]
      constructor
      · rintro (⟨same, _⟩ | ⟨_, is⟩)
        · omega
        · exact ⟨by omega, is⟩
      · rintro ⟨_, is⟩
        exact .inr ⟨by omega, is⟩

theorem nodup_tasksFrom (w : Wiring) (n : Nat) : (tasksFrom n w).Nodup := by
  induction w generalizing n with
  | nil => exact .nil
  | cons way rest ih =>
    have behind : (⟨n⟩ : FutureId) ∉ tasksFrom (n + 1) rest := by
      rw [mem_tasksFrom]
      rintro ⟨beyond, _⟩
      exact Nat.not_succ_le_self n beyond
    cases way with
    | task => exact List.nodup_cons.mpr ⟨behind, ih (n + 1)⟩
    | given | relay | join => exact ih (n + 1)

namespace Reads

theorem known (reads : w.Reads f e) : f.number < w.length := by
  cases reads with
  | given way => exact (List.getElem?_eq_some_iff.mp way).1
  | task way => exact (List.getElem?_eq_some_iff.mp way).1
  | relay way => exact (List.getElem?_eq_some_iff.mp way).1
  | join way => exact (List.getElem?_eq_some_iff.mp way).1

theorem append (reads : w.Reads f e) (more : Wiring) : Reads (w ++ more) f e := by
  have kept : ∀ {n : Nat} {way : Way}, w[n]? = some way → (w ++ more)[n]? = some way :=
    fun found => List.getElem?_append_left (List.getElem?_eq_some_iff.mp found).1 ▸ found
  induction reads with
  | given way => exact .given (kept way)
  | task way => exact .task (kept way)
  | relay way _ ih => exact .relay (kept way) ih
  | join way length _ ih => exact .join (kept way) length ih

theorem all {j : Nat} {fs : List FutureId} {es : List Prospect}
    (way : w[f.number]? = some (.join j fs.length fs)) (parts : List.Forall₂ w.Reads fs es) :
    w.Reads f (.all es) := by
  refine .join way parts.length_eq fun k h e part prospect => ?_
  obtain ⟨inside, rfl⟩ := List.getElem?_eq_some_iff.mp part
  obtain ⟨inside', rfl⟩ := List.getElem?_eq_some_iff.mp prospect
  exact parts.get inside inside'

theorem task_of_mem (reads : w.Reads f e) (within : g ∈ e.tasks) : w[g.number]? = some .task := by
  induction reads with
  | given way => cases within
  | task way =>
    obtain rfl := List.mem_singleton.mp within
    exact way
  | relay _ _ ih => exact ih within
  | join _ length _ ih =>
    rw [Prospect.tasks_all] at within
    obtain ⟨e, member, within⟩ := List.mem_flatMap.mp within
    obtain ⟨k, inside, rfl⟩ := List.mem_iff_getElem.mp member
    exact ih k _ _ (List.getElem?_eq_getElem (length ▸ inside)) (List.getElem?_eq_getElem inside)
      within

theorem set (reads : w.Reads f e) (task : w[g.number]? = some .task) (apart : g ∉ e.tasks)
    (way : Way) : Reads (w.set g.number way) f e := by
  have elsewhere : ∀ {n : Nat} {way' : Way}, w[n]? = some way' → n ≠ g.number →
      (w.set g.number way)[n]? = some way' :=
    fun is other => (List.getElem?_set_ne (Ne.symm other)).trans is
  have other : ∀ {n : Nat} {way' : Way}, w[n]? = some way' → way' ≠ .task → n ≠ g.number := by
    rintro n way' is no_task rfl
    exact no_task (Option.some.inj (is.symm.trans task))
  induction reads with
  | given is => exact .given (elsewhere is (other is nofun))
  | @task f is =>
    refine .task (elsewhere is fun same => apart ?_)
    rw [Prospect.tasks, List.mem_singleton]
    exact congrArg FutureId.mk same.symm
  | relay is _ ih => exact .relay (elsewhere is (other is nofun)) (ih apart)
  | join is length _ ih =>
    refine .join (elsewhere is (other is nofun)) length fun k h e part prospect => ?_
    refine ih k h e part prospect fun within => apart ?_
    rw [Prospect.tasks_all]
    exact List.mem_flatMap.mpr ⟨e, List.mem_of_getElem? prospect, within⟩

theorem replace (reads : w.Reads f e) (task : w[g.number]? = some .task)
    (source : Reads (w.set g.number (.relay h)) h d) :
    Reads (w.set g.number (.relay h)) f (e.replace g d) := by
  have own : (w.set g.number (.relay h))[g.number]? = some (.relay h) :=
    List.getElem?_set_self (List.getElem?_eq_some_iff.mp task).1
  have elsewhere : ∀ {n : Nat} {way : Way}, w[n]? = some way → way ≠ .task →
      (w.set g.number (.relay h))[n]? = some way := by
    intro n way is no_task
    refine (List.getElem?_set_ne ?_).trans is
    rintro rfl
    exact no_task (Option.some.inj (is.symm.trans task))
  induction reads with
  | given is => exact .given (elsewhere is nofun)
  | @task f is =>
    rw [Prospect.replace]
    split
    · rename_i same
      rw [same]
      exact .relay own source
    · rename_i apart
      refine .task ((List.getElem?_set_ne fun same => apart ?_).trans is)
      exact congrArg FutureId.mk same.symm
  | relay is _ ih => exact .relay (elsewhere is nofun) ih
  | @join f j fs es is length _ ih =>
    rw [Prospect.replace_all]
    refine .join (elsewhere is nofun) (by rw [List.length_map, length]) fun k h e part found => ?_
    rw [List.getElem?_map] at found
    obtain ⟨e, prospect, rfl⟩ := Option.map_eq_some_iff.mp found
    exact ih k h e part prospect

end Reads

end Wiring

namespace Futures

variable {ν : Type} {s : Futures ν} {w : Wiring} {f h : FutureId} {e : Prospect}

theorem Carried.settled {l : Listener ν} {arrived : Option Outcome}
    (carried : s.Carried [] h l arrived) : arrived = s.value? h := by
  rw [Carried] at carried
  split at carried
  · rename_i none
    exact carried.1.trans none.symm
  · rename_i o some
    rcases carried with here | ⟨_, coming⟩
    · exact here.trans some.symm
    · cases coming

/-- A future has the outcome that the wiring promises, once no task is left in it. -/
theorem Wired.value?_eq (wired : s.Wired w []) (reads : w.Reads f e) : s.value? f = e.value? := by
  induction reads with
  | given way => exact wired.follows _ _ trivial way
  | task way => exact wired.follows _ _ trivial way
  | relay way _ ih =>
    have carried : s.Carried [] _ _ _ := wired.follows _ _ trivial way
    exact carried.settled.trans ih
  | @join f j fs es way length _ ih =>
    obtain ⟨places, filled, result⟩ := wired.follows f _ trivial way
    have same : places = es.map (·.value?) := by
      apply List.ext_getElem
      · rw [filled.length, length, List.length_map]
      · intro k inside inside'
        rw [List.getElem_map]
        rw [List.length_map] at inside'
        have part := List.getElem?_eq_getElem (length ▸ inside')
        have carried := filled.arrived k _ _ part (List.getElem?_eq_getElem inside)
        exact carried.settled.trans (ih k _ _ part (List.getElem?_eq_getElem inside'))
    rw [result, same]
    exact (Prospect.eval_all es f).symm

theorem Wired.values_eq (wired : s.Wired w []) {fs : List FutureId} {es : List Prospect}
    (reads : List.Forall₂ w.Reads fs es) : fs.map s.value? = es.map Prospect.value? := by
  induction reads with
  | nil => rfl
  | cons first _ ih => exact congrArg₂ List.cons (wired.value?_eq first) ih

theorem Wired.isComplete_iff (wired : s.Wired w []) (reads : w.Reads f e) :
    s.isComplete f = true ↔ e.tasks = [] := by
  rw [isComplete, wired.value?_eq reads, Option.isSome_iff_ne_none, Ne,
    Prospect.value?_eq_none_iff, not_not]

theorem Wired.all (wired : s.Wired w []) {fs : List FutureId} {es : List Prospect}
    (reads : List.Forall₂ w.Reads fs es) :
    ∃ more : Wiring, (s.all fs).2.Wired (w ++ more) [] ∧ more.tasksFrom w.length = [] ∧
      Wiring.Reads (w ++ more) (s.all fs).1 (.all es) := by
  have last : ∀ way : Way, (w ++ [way])[s.values.length]? = some way := by
    intro way
    rw [← wired.size]
    simp
  match fs, es, reads with
  | [], _, .nil => exact ⟨[.given .empty], wired.completed .empty, rfl, .given (last _)⟩
  | [f], _, .cons reads .nil =>
    refine ⟨[], ?_, rfl, ?_⟩
    · rw [List.append_nil]
      exact wired
    · rw [List.append_nil]
      exact reads
  | f :: g :: rest, es, reads =>
    have known : ∀ h ∈ f :: g :: rest, h.number < w.length := by
      intro h member
      obtain ⟨k, inside, rfl⟩ := List.mem_iff_getElem.mp member
      exact (reads.get inside (reads.length_eq ▸ inside)).known
    refine ⟨_, wired.join known, rfl, .all (last _) ?_⟩
    exact reads.imp fun _ _ reads => reads.append _

end Futures

end Cuescript
