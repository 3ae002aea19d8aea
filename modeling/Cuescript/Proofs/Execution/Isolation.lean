import Cuescript.Proofs.Execution.Mirrors
import Cuescript.Proofs.Execution.Waiting

/-!
A run and the part of it that concerns one target. Main statement: leaving out everything that
concerns other targets changes no reply to the target, and nothing that is remembered of it.
-/
namespace Cuescript

variable {ν : Type}

/-- What an answer comes to: for a future, its outcome as far as there is one. -/
inductive Reply where
  | combined (c : Combined)
  | outcome (o : Outcome)
  | future (value : Option Outcome)
  deriving DecidableEq

namespace World

/-- A move as far as it concerns one target. A task has another place where only the tasks for the
target are waiting. -/
def alone (u : String) (w : World ν) : Move → List Move
  | .run i =>
    match w.tasks[i]? with
    | none => []
    | some task =>
      if task.target.id = u then [.run ((w.tasks.take i).countP fun task => task.target.id = u)]
      else []
  | m => if m.target?.all (· = u) then [m] else []

def restrict (u : String) (w : World ν) : List Move → List Move
  | [] => []
  | m :: rest => w.alone u m ++ (w.perform m).restrict u rest

def answersTo (u : String) (w : World ν) (m : Move) : List Answer :=
  if m.target? = some u then (w.answer? m).toList else []

def answers (u : String) (w : World ν) : List Move → List Answer
  | [] => []
  | m :: rest => w.answersTo u m ++ (w.perform m).answers u rest

def reply (w : World ν) : Answer → Reply
  | .combined c => .combined c
  | .outcome o => .outcome o
  | .future f => .future (w.futures.value? f)

def replies (u : String) (w : World ν) (ms : List Move) : List Reply :=
  (w.answers u ms).map (w.play ms).reply

/-- How the futures of two runs correspond: the wiring of each, and the tasks that stand for each
other. -/
structure Link where
  ways : Wiring
  ways' : Wiring
  pairs : Pairs

inductive Alike (link : Link) : Answer → Answer → Prop
  | combined (c : Combined) : Alike link (.combined c) (.combined c)
  | outcome (o : Outcome) : Alike link (.outcome o) (.outcome o)
  | future {f g : FutureId} {e d : Prospect} (reads : link.ways.Reads f e)
      (reads' : link.ways'.Reads g d) (same : e.Matches link.pairs d) :
      Alike link (.future f) (.future g)

/-- The tasks for one target in `w`, and those in `v` that stand for them, where there are no
others. -/
structure Counterparts (u : String) (pairs : Pairs) (w v : World ν) : Prop where
  tasks : (w.tasks.filter fun task => task.target.id = u) = pairs.map Prod.fst
  tasks' : v.tasks = pairs.map Prod.snd
  twins : ∀ p ∈ pairs, p.1.Twin p.2

/-- A world `w` and a world `v` in which only one target was of concern: they look the same to the
target, and the tasks for it are the same. -/
structure Mirror (u : String) (link : Link) (w v : World ν) : Prop where
  engaged : w.Engaged link.ways
  engaged' : v.Engaged link.ways'
  orderly : w.Orderly
  agree : Agree u w v
  waiting : Counterparts u link.pairs w v

/-- After one more step of both, one world still mirrors the other, answers that were alike are so
still, and the new ones are alike. -/
def Kept (u : String) (link : Link) (w v : World ν) (new new' : List Answer) : Prop :=
  ∃ next, Mirror u next w v ∧ (∀ a a', Alike link a a' → Alike next a a') ∧
    List.Forall₂ (Alike next) new new'

variable {u x : String} {w w' w'' v v' v'' : World ν} {t : Target} {c : Context} {m : Move}
  {errands : List Errand} {link next : Link} {task : Task} {i : Nat} {pairs added : Pairs}
  {es ds : List Prospect}

theorem alone_own (own : m.target? = some u) (w : World ν) : w.alone u m = [m] := by
  cases m with
  | clock | run | clear => cases own
  | test | execute | act | trigger | fire | rehearse | reset => exact if_pos (by simp [own])

theorem alone_other (is : m.target? = some x) (other : x ≠ u) (w : World ν) : w.alone u m = [] := by
  cases m with
  | clock | run | clear => cases is
  | test | execute | act | trigger | fire | rehearse | reset =>
    exact if_neg (by simp [is, other])

theorem answersTo_own (own : m.target? = some u) (w : World ν) :
    w.answersTo u m = (w.answer? m).toList := if_pos own

theorem answersTo_other (is : m.target? = some x) (other : x ≠ u) (w : World ν) :
    w.answersTo u m = [] := by
  refine if_neg ?_
  rw [is, Option.some.injEq]
  exact other

theorem answers_singleton (u : String) (w : World ν) (m : Move) :
    w.answers u [m] = w.answersTo u m := List.append_nil _

theorem answers_append (u : String) (w : World ν) (ms ms' : List Move) :
    w.answers u (ms ++ ms') = w.answers u ms ++ (w.play ms).answers u ms' := by
  induction ms generalizing w with
  | nil => rfl
  | cons m rest ih =>
    rw [List.cons_append, answers, answers, ih, List.append_assoc]
    rfl

theorem Alike.reply {a a' : Answer} (alike : Alike link a a') (mirror : Mirror u link w v) :
    w.reply a = v.reply a' := by
  cases alike with
  | combined | outcome => rfl
  | future reads reads' same =>
    have value := mirror.engaged.wired.value?_eq reads
    have value' := mirror.engaged'.wired.value?_eq reads'
    exact congrArg Reply.future (value.trans (same.value?.trans value'.symm))

theorem Mirror.replies {new new' : List Answer} (mirror : Mirror u link w v)
    (alike : List.Forall₂ (Alike link) new new') : new'.map v.reply = new.map w.reply := by
  induction alike with
  | nil => rfl
  | cons first _ ih => rw [List.map_cons, List.map_cons, first.reply mirror, ih]

theorem Alike.imp {a a' : Answer} (alike : Alike link a a')
    (futures : ∀ f g e d, link.ways.Reads f e → link.ways'.Reads g d → e.Matches link.pairs d →
      Alike next (.future f) (.future g)) : Alike next a a' := by
  cases alike with
  | combined c => exact .combined c
  | outcome o => exact .outcome o
  | future reads reads' same => exact futures _ _ _ _ reads reads' same

theorem Kept.append {new new' more more' : List Answer} (kept : Kept u link w v new new')
    (further : ∀ next, Mirror u next w v → Kept u next w' v' more more') :
    Kept u link w' v' (new ++ more) (new' ++ more') := by
  obtain ⟨next, mirror, still, alike⟩ := kept
  obtain ⟨last, mirror, still', alike'⟩ := further next mirror
  refine ⟨last, mirror, fun a a' same => still' a a' (still a a' same), ?_⟩
  exact List.rel_append (alike.imp still') alike'

/-! What a call is about. -/

theorem target?_of_call (is : m.call? = some (t, c, errands)) : m.target? = some t.id := by
  cases m with
  | execute | act | trigger | fire =>
    cases is
    rfl
  | test | rehearse | clock | run | reset | clear => cases is

theorem call_free (is : m.call? = some (t, c, errands)) (n : ActionNode) (claim : Claim) :
    .run n claim ∉ errands := by
  cases m with
  | execute | act | trigger | fire =>
    cases is
    simp
  | test | rehearse | clock | run | reset | clear => cases is

/-! What is put off for the target is put off in both worlds. -/

theorem Counterparts.grow (waiting : Counterparts t.id pairs w v)
    (mirrors : Mirrors t w v w' v' added es ds) : Counterparts t.id (pairs ++ added) w' v' where
  tasks := by
    rw [mirrors.tasks, List.filter_append, waiting.tasks, mirrors.filter_own, List.map_append]
  tasks' := by rw [mirrors.tasks', waiting.tasks', List.map_append]
  twins p member :=
    (List.mem_append.mp member).elim (waiting.twins p) fun added => (mirrors.twins p added).1

theorem Counterparts.grow_other (waiting : Counterparts u pairs w v) (other : t.id ≠ u)
    {w₁ v₁ : World ν} (mirrors : Mirrors t w w₁ w' v₁ added es ds) : Counterparts u pairs w' v :=
  { waiting with
    tasks := by
      rw [mirrors.tasks, List.filter_append, mirrors.filter_other other, List.append_nil,
        waiting.tasks] }

namespace Mirror

variable (mirror : Mirror u link w v)

include mirror

theorem call (is : m.call? = some (t, c, errands)) (own : t.id = u) :
    Kept u link (w.perform m) (v.perform m) (w.answer? m).toList (v.answer? m).toList := by
  subst own
  obtain ⟨fs, es, w', course, performed, answered⟩ := call_course is w
  obtain ⟨gs, ds, v', added, course', mirrors⟩ := course.mirror mirror.agree
  obtain ⟨performed', answered'⟩ := course'.of_call is
  obtain ⟨more, new, grows⟩ := course.grows mirror.engaged.wired
  obtain ⟨more', new', grows'⟩ := course'.grows mirror.engaged'.wired
  obtain ⟨_, joined⟩ := grows.all
  obtain ⟨_, joined'⟩ := grows'.all
  have orderly := mirror.orderly.perform m
  rw [performed] at orderly
  rw [performed, performed', answered, answered']
  have waiting := mirror.waiting.grow mirrors
  refine ⟨⟨_, _, link.pairs ++ added⟩, ⟨mirror.engaged.grow joined, mirror.engaged'.grow joined',
    orderly, mirrors.agree.futures _ _, { waiting with }⟩, fun a a' alike => ?_, ?_⟩
  · refine alike.imp fun f g e d reads reads' same => .future (reads.append _) (reads'.append _) ?_
    exact same.mono fun p member => List.mem_append_left _ member
  · have same := (Prospect.Matches.all mirrors.prospects).mono fun p member =>
      List.mem_append_right link.pairs member
    have reads := (List.forall₂_cons.mp joined.reads).1
    have reads' := (List.forall₂_cons.mp joined'.reads).1
    exact .cons (.future reads reads' same) .nil

theorem call_other (is : m.call? = some (t, c, errands)) (other : t.id ≠ u) :
    Kept u link (w.perform m) v [] [] := by
  obtain ⟨fs, es, w', course, performed, _⟩ := call_course is w
  obtain ⟨_, _, _, added, _, mirrors⟩ := course.mirror (.refl t.id w)
  obtain ⟨more, new, grows⟩ := course.grows mirror.engaged.wired
  obtain ⟨_, joined⟩ := grows.all
  have orderly := mirror.orderly.perform m
  rw [performed] at orderly
  have view : Agree u w w' := course.agree other fun n claim inHand =>
    absurd inHand (call_free is n claim)
  rw [performed]
  have waiting := mirror.waiting.grow_other other mirrors
  refine ⟨⟨_, link.ways', link.pairs⟩, ⟨mirror.engaged.grow joined, mirror.engaged', orderly,
    (view.trans (agree_futures ..)).symm.trans mirror.agree, { waiting with }⟩,
    fun a a' alike => ?_, .nil⟩
  exact alike.imp fun f g e d reads reads' same => .future (reads.append _) reads' same

/-- A move that neither makes a call nor runs a task keeps the mirror. -/
theorem quiet (left : Quiet w w') (right : Quiet v v') (agree : Agree u w' v')
    (orderly : w'.Orderly) : Mirror u link w' v' where
  engaged := mirror.engaged.quiet left
  engaged' := mirror.engaged'.quiet right
  orderly := orderly
  agree := agree
  waiting := { mirror.waiting with
    tasks := left.tasks ▸ mirror.waiting.tasks
    tasks' := right.tasks.trans mirror.waiting.tasks' }

end Mirror

/-- A task for the target stands at `i` in one world. In the other one a task that differs in its
future `h` stands for it, between those that stand for the tasks before it and behind it. -/
structure Place (u : String) (pairs : Pairs) (w v : World ν) (i : Nat) (task : Task) (h : FutureId)
    (before after : Pairs) : Prop where
  split : pairs = before ++ (task, { task with done := h }) :: after
  left : ((w.tasks.take i).filter fun task => task.target.id = u) = before.map Prod.fst
  right : ((w.tasks.drop (i + 1)).filter fun task => task.target.id = u) = after.map Prod.fst
  found' : v.tasks[before.length]? = some { task with done := h }
  left' : v.tasks.take before.length = before.map Prod.snd
  right' : v.tasks.drop (before.length + 1) = after.map Prod.snd

theorem Counterparts.place (waiting : Counterparts u pairs w v) (found : w.tasks[i]? = some task)
    (own : task.target.id = u) : ∃ h before after, Place u pairs w v i task h before after := by
  have tasks := waiting.tasks
  rw [← tasks_around found, List.filter_append, List.filter_cons_of_pos (by simpa using own)]
    at tasks
  obtain ⟨before, rest, is, left, right⟩ := List.map_eq_append_iff.mp tasks.symm
  obtain ⟨⟨first, second⟩, after, rfl, rfl, behind⟩ := List.map_eq_cons_iff.mp right
  have member : (first, second) ∈ pairs := by simp [is]
  have twin : second = { first with done := second.done } := waiting.twins (first, second) member
  have tasks' : v.tasks = before.map Prod.snd ++ second :: after.map Prod.snd := by
    rw [waiting.tasks', is, List.map_append, List.map_cons]
  refine ⟨second.done, before, after, twin ▸ is, left.symm, behind.symm, ?_, ?_, ?_⟩
  · simp [tasks', ← twin]
  · simp [tasks']
  · simp [tasks', List.drop_append]

namespace Place

variable {h : FutureId} {before after : Pairs}
  (place : Place u link.pairs w v i task h before after)

include place

theorem alone (found : w.tasks[i]? = some task) (own : task.target.id = u) :
    w.alone u (.run i) = [.run before.length] := by
  simp [World.alone, found, own, List.countP_eq_length_filter, place.left]

theorem stays {p : Task × Task} (member : p ∈ before ++ after) :
    p.1 ∈ w.tasks.take i ++ w.tasks.drop (i + 1) ∧
      p.2 ∈ v.tasks.take before.length ++ v.tasks.drop (before.length + 1) := by
  constructor
  · have kept : p.1 ∈ (w.tasks.take i ++ w.tasks.drop (i + 1)).filter fun task =>
        task.target.id = u := by
      rw [List.filter_append, place.left, place.right, ← List.map_append]
      exact List.mem_map_of_mem member
    exact (List.mem_filter.mp kept).1
  · rw [place.left', place.right', ← List.map_append]
    exact List.mem_map_of_mem member

theorem rest (waiting : Counterparts u link.pairs w v) : Counterparts u (before ++ after)
    (w.takeUp (w.tasks.take i) task (w.tasks.drop (i + 1)))
    (v.takeUp (v.tasks.take before.length) { task with done := h }
      (v.tasks.drop (before.length + 1))) where
  tasks := by
    show (w.tasks.take i ++ w.tasks.drop (i + 1)).filter _ = _
    rw [List.filter_append, place.left, place.right, List.map_append]
  tasks' := by
    show v.tasks.take before.length ++ v.tasks.drop (before.length + 1) = _
    rw [place.left', place.right', List.map_append]
  twins p member := by
    apply waiting.twins
    rw [place.split]
    rcases List.mem_append.mp member with old | old
    · exact List.mem_append_left _ old
    · exact List.mem_append_right _ (List.mem_cons_of_mem _ old)

theorem apart (engaged : w.Engaged link.ways) (engaged' : v.Engaged link.ways')
    (found : w.tasks[i]? = some task) {f g : FutureId} (paired : link.pairs.Paired f g)
    (added : Pairs) :
    f = task.done ∧ g = h ∨
      f ≠ task.done ∧ g ≠ h ∧ (before ++ after ++ added).Paired f g := by
  obtain ⟨p, member, rfl, rfl⟩ := paired
  rw [place.split, List.mem_append, List.mem_cons] at member
  have others : p = (task, { task with done := h }) ∨ p ∈ before ++ after := by
    rcases member with member | same | member
    · exact .inr (List.mem_append_left _ member)
    · exact .inl same
    · exact .inr (List.mem_append_right _ member)
  rcases others with rfl | member
  · exact .inl ⟨rfl, rfl⟩
  · obtain ⟨left, right⟩ := place.stays member
    exact .inr ⟨engaged.apart found left, engaged'.apart place.found' right, p,
      List.mem_append_left _ member, rfl, rfl⟩

end Place

namespace Mirror

variable (mirror : Mirror u link w v)

include mirror

theorem run_own (found : w.tasks[i]? = some task) (own : task.target.id = u) :
    Kept u link (w.runTask i) (v.play (w.alone u (.run i))) []
      (v.answers u (w.alone u (.run i))) := by
  obtain ⟨h, before, after, place⟩ := mirror.waiting.place found own
  rw [place.alone found own]
  subst own
  obtain ⟨f, e, w', course, ran⟩ := runTask_course found
  have view : Agree task.target.id (w.takeUp (w.tasks.take i) task (w.tasks.drop (i + 1)))
      (v.takeUp (v.tasks.take before.length) { task with done := h }
        (v.tasks.drop (before.length + 1))) :=
    ⟨mirror.agree.clock, mirror.agree.deferring, mirror.agree.store⟩
  obtain ⟨gs, ds, v', added, course', mirrors⟩ := course.mirror view
  obtain ⟨g, d, rfl, rfl⟩ := course'.of_run
  have ran' : v.runTask before.length = v'.onComplete g (.relay h) := by
    apply Course.of_task (e := d) ?_ place.found'
    exact course'
  obtain ⟨more, new, grows⟩ := course.grows mirror.engaged.wired
  obtain ⟨more', new', grows'⟩ := course'.grows mirror.engaged'.wired
  have orderly : (w.runTask i).Orderly := mirror.orderly.perform (.run i)
  show Kept _ _ _ (v.runTask before.length) _ _
  rw [ran] at orderly
  rw [ran, ran']
  have waiting := (place.rest mirror.waiting).grow mirrors
  refine ⟨⟨_, _, before ++ after ++ added⟩, ⟨mirror.engaged.run found grows,
    mirror.engaged'.run place.found' grows', orderly, mirrors.agree.futures _ _,
    { waiting with }⟩, fun a a' alike => ?_, .nil⟩
  have part := (List.forall₂_cons.mp mirrors.prospects).1
  refine alike.imp fun _ _ _ _ reads reads' same => .future
    (mirror.engaged.reads_run found grows reads)
    (mirror.engaged'.reads_run place.found' grows' reads') (same.replace ?_ ?_)
  · exact part.mono fun p member => List.mem_append_right _ member
  · intro f g paired
    exact place.apart mirror.engaged mirror.engaged' found paired added

theorem run_other (found : w.tasks[i]? = some task) (other : task.target.id ≠ u) :
    Kept u link (w.runTask i) v [] [] := by
  obtain ⟨f, e, w', course, ran⟩ := runTask_course found
  obtain ⟨_, _, _, added, _, mirrors⟩ := course.mirror (.refl task.target.id _)
  obtain ⟨more, new, grows⟩ := course.grows mirror.engaged.wired
  have orderly : (w.runTask i).Orderly := mirror.orderly.perform (.run i)
  have waiting := List.mem_of_getElem? found
  have claims : ∀ n claim, Errand.run n claim ∈ [Errand.run task.node task.claim] →
      claim.pair.2 = task.target.id := by
    rintro n claim ⟨⟩
    · rw [(mirror.orderly.tasks task waiting).2]
      rfl
    · contradiction
  have taken : Agree u w (w.takeUp (w.tasks.take i) task (w.tasks.drop (i + 1))) :=
    ⟨rfl, rfl, .refl u _⟩
  have view := taken.trans (course.agree other claims)
  have rest : (w.tasks.take i ++ w.tasks.drop (i + 1)).filter (fun task => task.target.id = u) =
      link.pairs.map Prod.fst := by
    have tasks := mirror.waiting.tasks
    rw [← tasks_around found, List.filter_append, List.filter_cons_of_neg (by simpa using other)]
      at tasks
    rw [List.filter_append, tasks]
  have waiting := Counterparts.grow_other
    (w := w.takeUp (w.tasks.take i) task (w.tasks.drop (i + 1)))
    { mirror.waiting with tasks := rest } other mirrors
  rw [ran] at orderly ⊢
  refine ⟨⟨_, link.ways', link.pairs⟩, ⟨mirror.engaged.run found grows, mirror.engaged', orderly,
    (view.trans (agree_futures ..)).symm.trans mirror.agree, { waiting with }⟩,
    fun a a' alike => ?_, .nil⟩
  refine alike.imp fun f g d _ reads reads' same => ?_
  -- What the target waits for is not this task.
  have absent : task.done ∉ d.tasks := by
    intro within
    obtain ⟨_, p, member, is, _⟩ := same.mem_tasks within
    have mine : p.1 ∈ link.pairs.map Prod.fst := List.mem_map_of_mem member
    rw [← rest] at mine
    exact mirror.engaged.apart found (List.mem_filter.mp mine).1 is
  have still := mirror.engaged.reads_run found grows reads
  rw [Prospect.replace_of_not_mem absent] at still
  exact .future still reads' same

end Mirror

theorem Alike.of_eq {a : Answer} (known : ∀ f, a ≠ .future f) : Alike link a a := by
  cases a with
  | combined c => exact .combined c
  | outcome o => exact .outcome o
  | future f => exact absurd rfl (known f)

theorem Mirror.kept {new : List Answer} (mirror : Mirror u link w v)
    (known : ∀ a ∈ new, ∀ f, a ≠ .future f) : Kept u link w v new new := by
  refine ⟨link, mirror, fun a a' alike => alike, ?_⟩
  rw [List.forall₂_same]
  exact fun a member => .of_eq (known a member)

theorem Mirror.idle (mirror : Mirror u link w v) (is : m.call? = none)
    (idle : w.running? m = none) :
    Kept u link (w.perform m) (v.play (w.alone u m)) (w.answersTo u m)
      (v.answers u (w.alone u m)) := by
  have quiet := quiet_perform is idle
  have orderly := mirror.orderly.perform m
  cases about : m.target? with
  | some x =>
    by_cases own : x = u
    · subst own
      have idle' : v.running? m = none := by
        cases m with
        | run => cases about
        | _ => rfl
      obtain ⟨same, agree⟩ := mirror.agree.perform_own about is
      rw [alone_own about, answersTo_own about, answers_singleton, answersTo_own about, same]
      refine (mirror.quiet quiet (quiet_perform is idle') agree orderly).kept ?_
      rintro a member f rfl
      exact answer?_ne_future is w f (Option.mem_toList.mp member)
    · rw [alone_other about own, answersTo_other about own]
      have agree := (agree_perform about own is w).symm.trans mirror.agree
      exact (mirror.quiet quiet (.refl v) agree orderly).kept (List.forall_mem_nil _)
  | none =>
    cases m with
    | clock time =>
      have agree : Agree u (w.setClock time) (v.setClock time) :=
        ⟨rfl, mirror.agree.deferring, mirror.agree.store⟩
      have quiet' : Quiet v (v.setClock time) := ⟨rfl, rfl, rfl, rfl⟩
      exact (mirror.quiet quiet quiet' agree orderly).kept (List.forall_mem_nil _)
    | clear =>
      have agree : Agree u (w.perform .clear) (v.perform .clear) :=
        ⟨mirror.agree.clock, mirror.agree.deferring, mirror.agree.store.clear⟩
      have quiet' : Quiet v (v.perform .clear) := ⟨rfl, rfl, rfl, rfl⟩
      exact (mirror.quiet quiet quiet' agree orderly).kept (List.forall_mem_nil _)
    | run i =>
      -- There is no such task.
      have missing : w.tasks[i]? = none := Option.map_eq_none_iff.mp idle
      rw [alone, missing, World.perform, runTask, missing]
      exact mirror.kept (List.forall_mem_nil _)
    | test | execute | act | trigger | fire | rehearse | reset => cases about

theorem Mirror.run (mirror : Mirror u link w v) (found : w.tasks[i]? = some task) :
    Kept u link (w.perform (.run i)) (v.play (w.alone u (.run i))) (w.answersTo u (.run i))
      (v.answers u (w.alone u (.run i))) := by
  by_cases own : task.target.id = u
  · exact mirror.run_own found own
  · have nothing : w.alone u (.run i) = [] := by simp [alone, found, own]
    rw [nothing]
    exact mirror.run_other found own

/-- What does not concern the target in a move is left out in the other world. -/
theorem Mirror.perform (mirror : Mirror u link w v) (m : Move) :
    Kept u link (w.perform m) (v.play (w.alone u m)) (w.answersTo u m)
      (v.answers u (w.alone u m)) := by
  cases is : m.call? with
  | some call =>
    obtain ⟨t, c, errands⟩ := call
    have about := target?_of_call is
    by_cases own : t.id = u
    · rw [own] at about
      rw [alone_own about, answersTo_own about, answers_singleton, answersTo_own about]
      exact mirror.call is own
    · rw [alone_other about own, answersTo_other about own]
      exact mirror.call_other is own
  | none =>
    cases running : w.running? m with
    | some g =>
      cases m with
      | run i =>
        obtain ⟨task, found, _⟩ := Option.map_eq_some_iff.mp running
        exact mirror.run found
      | _ => cases running
    | none => exact mirror.idle is running

/-- A whole run in one world, and what is left of it in the other. -/
theorem Mirror.play (mirror : Mirror u link w v) (ms : List Move) :
    Kept u link (w.play ms) (v.play (w.restrict u ms)) (w.answers u ms)
      (v.answers u (w.restrict u ms)) := by
  induction ms generalizing w v link with
  | nil => exact mirror.kept (List.forall_mem_nil _)
  | cons m rest ih =>
    rw [restrict, play_append, answers_append]
    exact (mirror.perform m).append fun next mirror => ih mirror

theorem mirror_start (u : String) (clock : Instant) (deferring : Bool) :
    Mirror u ⟨[], [], []⟩ (start clock deferring : World ν) (start clock deferring) where
  engaged := .start clock deferring
  engaged' := .start clock deferring
  orderly := orderly_start clock deferring
  agree := .refl u _
  waiting := ⟨rfl, rfl, List.forall_mem_nil _⟩

/-- What concerns other targets in a run has no effect on what the calls on one target come to, nor
on what is remembered of it. -/
structure Isolated (u : String) (w : World ν) (ms : List Move) : Prop where
  replies : w.replies u (w.restrict u ms) = w.replies u ms
  records : ∀ x, (w.play (w.restrict u ms)).store.records.get? (x, u) =
    (w.play ms).store.records.get? (x, u)
  passed : ∀ x, (w.play (w.restrict u ms)).store.passed.get? (x, u) =
    (w.play ms).store.passed.get? (x, u)

theorem play_isolated (clock : Instant) (deferring : Bool) (u : String) (ms : List Move) :
    Isolated u (start clock deferring : World ν) ms := by
  obtain ⟨link, mirror, _, alike⟩ := (mirror_start u clock deferring).play ms
  exact ⟨mirror.replies alike, mirror.agree.store.records, mirror.agree.store.passed⟩

example :
    let wait : ActionNode :=
      ⟨⟨⟨0⟩, "wait", ⟨.zero, .ofSeconds 1, false⟩,
        ⟨.player, fun _ _ => ⟨[], .ended .passed⟩⟩, []⟩, []⟩
    let ms := [.act wait ⟨"steve", .player "steve" 20⟩ .empty,
      .act wait ⟨"alex", .player "alex" 20⟩ .empty, .run 1]
    let w : World Unit := start ⟨0⟩ true
    (w.restrict "alex" ms).length = 2 ∧ w.replies "steve" ms = [.future none] ∧
      w.replies "alex" ms = [.future (some .passed)] ∧
      w.replies "alex" (w.restrict "alex" ms) = [.future (some .passed)] := by decide +kernel

end World

end Cuescript
