import Cuescript.Proofs.Execution.Views

/-!
The same done for a target in two worlds that look the same to it, though what else goes on in them
is different. Main statement: the same errands have courses that mirror each other, with prospects
that are the same but for the numbers of the futures.
-/
namespace Cuescript

variable {ν : Type}

/-- A task of the other run stands for a task: nothing but their futures is different. -/
def Task.Twin (task other : Task) : Prop := other = { task with done := other.done }

abbrev Pairs := List (Task × Task)

def Pairs.Paired (pairs : Pairs) (f g : FutureId) : Prop :=
  ∃ p ∈ pairs, p.1.done = f ∧ p.2.done = g

/-- Prospects that are the same up to the futures of tasks that stand for each other. -/
inductive Prospect.Matches (pairs : Pairs) : Prospect → Prospect → Prop
  | given (o : Outcome) : Matches pairs (.given o) (.given o)
  | task {f g : FutureId} (paired : pairs.Paired f g) : Matches pairs (.task f) (.task g)
  | both {a b a' b' : Prospect} (left : Matches pairs a a') (right : Matches pairs b b') :
      Matches pairs (.both a b) (.both a' b')

namespace Prospect.Matches

variable {pairs pairs' : Pairs} {d d' e e' : Prospect} {f g : FutureId}

theorem mono (same : e.Matches pairs e') (more : ∀ p ∈ pairs, p ∈ pairs') :
    e.Matches pairs' e' := by
  induction same with
  | given o => exact .given o
  | task paired =>
    obtain ⟨p, member, futures⟩ := paired
    exact .task ⟨p, more p member, futures⟩
  | both _ _ left right => exact .both left right

theorem value? (same : e.Matches pairs e') : e.value? = e'.value? := by
  induction same with
  | given o => rfl
  | task => rfl
  | both _ _ left right =>
    simp only [Prospect.value?, eval] at left right ⊢
    rw [left, right]

theorem mem_tasks (same : e.Matches pairs e') (member : f ∈ e.tasks) : ∃ g, pairs.Paired f g := by
  induction same with
  | given o => cases member
  | task paired =>
    obtain rfl := List.mem_singleton.mp member
    exact ⟨_, paired⟩
  | both _ _ left right => exact (List.mem_append.mp member).elim left right

theorem all {es es' : List Prospect} (same : List.Forall₂ (Matches pairs) es es') :
    (Prospect.all es).Matches pairs (Prospect.all es') := by
  have fold : ∀ {es es' : List Prospect} {e e' : Prospect}, e.Matches pairs e' →
      List.Forall₂ (Matches pairs) es es' →
      (es.foldl Prospect.both e).Matches pairs (es'.foldl Prospect.both e') := by
    intro es es' e e' start same
    induction same generalizing e e' with
    | nil => exact start
    | cons first _ ih => exact ih (.both start first)
  cases same with
  | nil => exact .given .empty
  | cons first rest =>
    cases rest with
    | nil => exact first
    | cons second rest => exact fold (.given .empty) (.cons first (.cons second rest))

theorem replace (same : e.Matches pairs e') (part : d.Matches pairs' d')
    (others : ∀ f' g', pairs.Paired f' g' →
      f' = f ∧ g' = g ∨ f' ≠ f ∧ g' ≠ g ∧ pairs'.Paired f' g') :
    (e.replace f d).Matches pairs' (e'.replace g d') := by
  induction same with
  | given o => exact .given o
  | task paired =>
    rw [Prospect.replace, Prospect.replace]
    rcases others _ _ paired with ⟨rfl, rfl⟩ | ⟨apart, apart', still⟩
    · rw [if_pos rfl, if_pos rfl]
      exact part
    · rw [if_neg apart, if_neg apart']
      exact .task still
  | both _ _ left right => exact .both left right

end Prospect.Matches

namespace World

variable {u : String} {w w' w'' v v' v'' : World ν} {t : Target} {c : Context}
  {pairs pairs' : Pairs} {es ds es' ds' : List Prospect}

/-- What is done in two worlds makes prospects that match, and puts off tasks for one target that
stand for each other. -/
structure Mirrors (t : Target) (w v w' v' : World ν) (pairs : Pairs) (es ds : List Prospect) :
    Prop where
  tasks : w'.tasks = w.tasks ++ pairs.map Prod.fst
  tasks' : v'.tasks = v.tasks ++ pairs.map Prod.snd
  twins : ∀ p ∈ pairs, p.1.Twin p.2 ∧ p.1.target = t
  prospects : List.Forall₂ (Prospect.Matches pairs) es ds
  agree : Agree t.id w' v'

namespace Mirrors

theorem append (first : Mirrors t w v w' v' pairs es ds)
    (second : Mirrors t w' v' w'' v'' pairs' es' ds') :
    Mirrors t w v w'' v'' (pairs ++ pairs') (es ++ es') (ds ++ ds') where
  tasks := by rw [second.tasks, first.tasks, List.map_append, List.append_assoc]
  tasks' := by rw [second.tasks', first.tasks', List.map_append, List.append_assoc]
  twins p member := (List.mem_append.mp member).elim (first.twins p) (second.twins p)
  prospects := by
    refine List.rel_append (first.prospects.imp fun _ _ same => ?_)
      (second.prospects.imp fun _ _ same => ?_)
    · exact same.mono fun p member => List.mem_append_left _ member
    · exact same.mono fun p member => List.mem_append_right _ member
  agree := second.agree

theorem filter_own (mirrors : Mirrors t w v w' v' pairs es ds) :
    ((pairs.map Prod.fst).filter fun task => task.target.id = t.id) = pairs.map Prod.fst := by
  rw [List.filter_eq_self]
  intro task within
  obtain ⟨p, member, rfl⟩ := List.mem_map.mp within
  simp [(mirrors.twins p member).2]

theorem filter_other (mirrors : Mirrors t w v w' v' pairs es ds) (other : t.id ≠ u) :
    ((pairs.map Prod.fst).filter fun task => task.target.id = u) = [] := by
  rw [List.filter_eq_nil_iff]
  intro task within
  obtain ⟨p, member, rfl⟩ := List.mem_map.mp within
  simp [(mirrors.twins p member).2, other]

theorem behind {w₁ v₁ : World ν} (mirrors : Mirrors t w₁ v₁ w' v' pairs es ds) (quiet : Quiet w w₁)
    (quiet' : Quiet v v₁) : Mirrors t w v w' v' pairs es ds :=
  { mirrors with
    tasks := quiet.tasks ▸ mirrors.tasks
    tasks' := quiet'.tasks ▸ mirrors.tasks' }

theorem completed (agree : Agree t.id w v) {o o' : Outcome} (same : o' = o) :
    Mirrors t w v (w.completed o).2 (v.completed o').2 [] [.given o] [.given o'] where
  tasks := (List.append_nil _).symm
  tasks' := (List.append_nil _).symm
  twins := List.forall_mem_nil _
  prospects := by
    rw [same]
    exact .cons (.given o) .nil
  agree := agree.futures _ _

theorem all (mirrors : Mirrors t w v w' v' pairs es ds) (fs gs : List FutureId) :
    Mirrors t w v (w'.all fs).2 (v'.all gs).2 pairs [.all es] [.all ds] :=
  { mirrors with
    prospects := .cons (.all mirrors.prospects) .nil
    agree := mirrors.agree.futures _ _ }

theorem around (agree : Agree t.id w v) {o o' : Outcome} (same : o' = o)
    (inside : Mirrors t (w.completed o).2 (v.completed o').2 w' v' pairs es ds)
    (fs gs : List FutureId) :
    Mirrors t w v (w'.all ((w.completed o).1 :: fs)).2 (v'.all ((v.completed o').1 :: gs)).2 pairs
      [.all (.given o :: es)] [.all (.given o' :: ds)] :=
  ((completed agree same).append inside).all _ _

theorem defer (agree : Agree t.id w v) (n : ActionNode) (c : Context) (claim : Claim) :
    ∃ pair, Mirrors t w v (w.defer n t c claim).2 (v.defer n t c claim).2 [pair]
      [.task (w.defer n t c claim).1] [.task (v.defer n t c claim).1] := by
  let task : Task := ⟨w.clock.after n.step.config.delay, n, t, c, claim, (w.defer n t c claim).1⟩
  let other : Task := { task with done := (v.defer n t c claim).1 }
  refine ⟨(task, other), rfl, ?_, fun p member => ?_, .cons (.task ?_) .nil, ?_⟩
  · show v.tasks ++ [_] = v.tasks ++ [other]
    rw [agree.clock]
    rfl
  · obtain rfl := List.mem_singleton.mp member
    exact ⟨rfl, rfl⟩
  · exact ⟨_, List.mem_singleton_self _, rfl, rfl⟩
  · exact ⟨agree.clock, agree.deferring, agree.store⟩

end Mirrors

theorem Course.mirror {errands : List Errand} {fs : List FutureId}
    (course : Course t c w errands fs es w') (agree : Agree t.id w v) :
    ∃ gs ds v' pairs, Course t c v errands gs ds v' ∧ Mirrors t w v w' v' pairs es ds := by
  induction course generalizing v with
  | done w =>
    exact ⟨[], [], v, [], .done v, (List.append_nil _).symm, (List.append_nil _).symm,
      List.forall_mem_nil _, .nil, agree⟩
  | @quits _ _ _ _ _ o _ _ quits _ behind =>
    obtain ⟨v₁, quits', agree⟩ := agree.quits quits
    have first := Mirrors.completed agree (Eq.refl o)
    obtain ⟨gs, ds, v', pairs, course, rest⟩ := behind first.agree
    exact ⟨_, _, v', _, .quits quits' course, (first.append rest).behind quits.quiet quits'.quiet⟩
  | @deferred w _ n _ _ _ enters late _ behind =>
    have enters' : Enters n t c v := ⟨enters.accepts, agree.passes enters.passes⟩
    have within := agree.within n c
    obtain ⟨pair, first⟩ := Mirrors.defer within n c (n.step.claim t)
    obtain ⟨gs, ds, v', pairs, course, rest⟩ := behind first.agree
    exact ⟨_, _, v', _, .deferred enters' ((within.putsOff n).trans late) course,
      (first.append rest).behind (quiet_within w n t c) (quiet_within v n t c)⟩
  | @entered w _ n _ _ _ enters now _ behind =>
    have enters' : Enters n t c v := ⟨enters.accepts, agree.passes enters.passes⟩
    have within := agree.within n c
    obtain ⟨gs, ds, v', pairs, course, rest⟩ := behind within
    exact ⟨_, _, v', _, .entered enters' ((within.putsOff n).trans now) course,
      rest.behind (quiet_within w n t c) (quiet_within v n t c)⟩
  | @failed w _ n claim _ _ _ fails _ behind =>
    have own : (v.runBody n.step t c).1 = (w.runBody n.step t c).1 := rfl
    have first := Mirrors.completed (agree.afterBody n t c claim) own
    obtain ⟨gs, ds, v', pairs, course, rest⟩ := behind first.agree
    exact ⟨_, _, v', _, .failed fails course,
      (first.append rest).behind (quiet_afterBody w n t c claim) (quiet_afterBody v n t c claim)⟩
  | @ran w _ _ n claim _ gs _ _ _ succeeds _ _ below behind =>
    have own : (v.runBody n.step t c).1 = (w.runBody n.step t c).1 := rfl
    have body := agree.afterBody n t c claim
    obtain ⟨gs', ds', v₁, _, inner, inside⟩ := below (Mirrors.completed body own).agree
    have first := Mirrors.around body own inside gs gs'
    obtain ⟨_, _, v', pairs, course, rest⟩ := behind first.agree
    exact ⟨_, _, v', _, .ran succeeds inner course,
      (first.append rest).behind (quiet_afterBody w n t c claim) (quiet_afterBody v n t c claim)⟩
  | @fired w _ _ n d _ gs _ _ _ context fires _ _ below behind =>
    have fires' : Fires n t d v :=
      ⟨fires.accepts, fires.isMatch, (agree.matchData n t d).passes fires.passes⟩
    obtain ⟨own, agree⟩ := agree.afterFiring n d
    obtain ⟨gs', ds', v₁, _, inner, inside⟩ := below (Mirrors.completed agree own).agree
    have first := Mirrors.around agree own inside gs gs'
    obtain ⟨_, _, v', pairs, course, rest⟩ := behind first.agree
    exact ⟨_, _, v', _, .fired context fires' inner course,
      (first.append rest).behind (quiet_afterFiring w n t d) (quiet_afterFiring v n t d)⟩

end World

end Cuescript
