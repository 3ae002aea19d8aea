import Cuescript.Proofs.Execution.Prospects
import Cuescript.Proofs.Execution.Regions

/-!
Calls in a world that puts nothing off. When such a call returns everything is done, and its future
is complete. Main statement: the outcome of a call, the bodies that run in it and what is remembered
after it are the same in all worlds that agree on a region with the pairs of its nodes.
-/
namespace Cuescript

namespace World

variable {ν : Type} {P : Pair → Prop} {w w' w'' v v' v'' : World ν} {t : Target} {c : Context}

/-! Where bodies run. -/

theorem bodies_claim (w : World ν) (i : NodeId) (t : String) (p : Policy) :
    (w.claim i t p).2.bodies = w.bodies :=
  have claimed : Effect [i] [] [] w (w.claim i t p).2 := effect_claim w List.mem_cons_self t p
  claimed.bodies.trans (List.append_nil _)

theorem bodies_askAt (w : World ν) (g : Gate) (t : Target) (c : Context) :
    (w.askAt g t c).2.bodies = w.bodies :=
  have asked : Effect [] (g.guards.map (·.id)) [] (w.claimAt g t).2 (w.askAt g t c).2 :=
    effect_testAll _ g.guards t c (List.Subset.refl _)
  (asked.bodies.trans (List.append_nil _)).trans (bodies_claim ..)

theorem bodies_matchData (w : World ν) (n : TriggerNode) (t : Target) (d : TriggerData) :
    (w.matchData n t d).2.bodies = w.bodies := bodies_enter _ _ _ _ rfl

theorem Stops.bodies {g : Gate} {o : Outcome} (stops : Stops g t c w o w') :
    w'.bodies = w.bodies := by
  cases stops with
  | denied d is => exact bodies_claim ..
  | unmet granted fails => exact bodies_askAt w g t c

theorem Quits.bodies {e : Errand} {o : Outcome} (quits : Quits t c w e o w') :
    w'.bodies = w.bodies := by
  cases quits with
  | other | foreign => rfl
  | stopped n accepts stops => exact stops.bodies
  | unmatched n d => exact bodies_matchData ..
  | silent n d accepts isMatch stops => exact stops.bodies.trans (bodies_matchData ..)

theorem bodies_afterBody (w : World ν) (n : ActionNode) (t : Target) (c : Context) (claim : Claim) :
    (w.afterBody n t c claim).bodies = w.bodies ++ [w.body t c n.step] := by
  have ran : Effect [] [] [w.body t c n.step] w (w.runBody n.step t c).2 := effect_runBody ..
  rw [afterBody]
  dsimp only
  split <;> exact ran.bodies

theorem bodies_afterFiring (w : World ν) (n : TriggerNode) (t : Target) (d : TriggerData) :
    (w.afterFiring n t d).2.bodies = w.bodies := by
  refine (bodies_enter _ _ _ _ rfl).trans ?_
  exact (bodies_askAt (w.matchData n t d).2 n.gate t (.ofTrigger d)).trans (bodies_matchData ..)

def SameBodies (w w' v v' : World ν) : Prop :=
  ∃ bs, w'.bodies = w.bodies ++ bs ∧ v'.bodies = v.bodies ++ bs

namespace SameBodies

theorem none (still : w'.bodies = w.bodies) (still' : v'.bodies = v.bodies) :
    SameBodies w w' v v' :=
  ⟨[], still.trans (List.append_nil _).symm, still'.trans (List.append_nil _).symm⟩

theorem trans (first : SameBodies w w' v v') (second : SameBodies w' w'' v' v'') :
    SameBodies w w'' v v'' := by
  obtain ⟨bs, ran, ran'⟩ := first
  obtain ⟨more, then_ran, then_ran'⟩ := second
  refine ⟨bs ++ more, ?_, ?_⟩
  · rw [then_ran, ran, List.append_assoc]
  · rw [then_ran', ran', List.append_assoc]

theorem afterBody (agree : AgreeOn P w v) (n : ActionNode) (t : Target) (c : Context)
    (claim : Claim) :
    SameBodies w (w.afterBody n t c claim) v (v.afterBody n t c claim) := by
  have same : v.body t c n.step = w.body t c n.step := by
    rw [body, body, agree.clock]
    rfl
  refine ⟨[w.body t c n.step], bodies_afterBody .., ?_⟩
  rw [← same]
  exact bodies_afterBody ..

end SameBodies

/-! Nothing is put off. -/

theorem within_now (now : w.deferring = false) (n : ActionNode) (t : Target) (c : Context) :
    (w.within n t c).deferring = false := (quiet_within w n t c).deferring.trans now

theorem putsOff_now (now : w.deferring = false) (n : ActionNode) : w.putsOff n = false := by
  rw [putsOff, now, Bool.false_and]

theorem Course.deferring {errands : List Errand} {fs : List FutureId} {es : List Prospect}
    (course : Course t c w errands fs es w') : w'.deferring = w.deferring := by
  induction course with
  | done w => rfl
  | quits quits _ ih => exact ih.trans quits.quiet.deferring
  | deferred _ _ _ ih => exact ih.trans (quiet_within ..).deferring
  | entered _ _ _ ih => exact ih.trans (quiet_within ..).deferring
  | failed _ _ ih => exact ih.trans (quiet_afterBody ..).deferring
  | ran _ _ _ below behind => exact behind.trans (below.trans (quiet_afterBody ..).deferring)
  | fired _ _ _ _ below behind => exact behind.trans (below.trans (quiet_afterFiring ..).deferring)

end World

theorem Prospect.value?_all {es : List Prospect} {os : List Outcome}
    (known : es.map value? = os.map some) : (all es).value? = some (Outcome.all os) := by
  have places : es.map (eval fun _ => none) = os.map some := known
  rw [value?, eval_all es ⟨0⟩, places, Join.result?_map_some]

namespace World

variable {ν : Type} {P : Pair → Prop} {w w' w'' v v' v'' : World ν} {t : Target} {c : Context}
  {errands : List Errand} {fs : List FutureId} {es : List Prospect}

theorem Course.known (course : Course t c w errands fs es w') (now : w.deferring = false) :
    ∃ os : List Outcome, es.map Prospect.value? = os.map some := by
  induction course with
  | done w => exact ⟨[], rfl⟩
  | @quits _ _ _ _ _ o _ _ quits _ ih =>
    obtain ⟨os, known⟩ := ih (quits.quiet.deferring.trans now)
    exact ⟨o :: os, congrArg (some o :: ·) known⟩
  | deferred _ late _ _ =>
    rw [putsOff_now (within_now now ..)] at late
    cases late
  | entered _ _ _ ih => exact ih (within_now now ..)
  | @failed w _ n claim _ _ _ _ _ ih =>
    obtain ⟨os, known⟩ := ih ((quiet_afterBody ..).deferring.trans now)
    exact ⟨(w.runBody n.step t c).1 :: os, congrArg (some _ :: ·) known⟩
  | @ran w _ _ n claim _ _ _ _ _ _ below _ ihBelow ihBehind =>
    have after := (quiet_afterBody w n t c claim).deferring.trans now
    obtain ⟨ds, inside⟩ := ihBelow after
    obtain ⟨os, known⟩ := ihBehind (below.deferring.trans after)
    refine ⟨Outcome.all ((w.runBody n.step t c).1 :: ds) :: os, congrArg₂ List.cons ?_ known⟩
    exact Prospect.value?_all (congrArg (some _ :: ·) inside)
  | @fired w _ _ n d _ _ _ _ _ _ _ below _ ihBelow ihBehind =>
    have after := (quiet_afterFiring w n t d).deferring.trans now
    obtain ⟨ds, inside⟩ := ihBelow after
    obtain ⟨os, known⟩ := ihBehind (below.deferring.trans after)
    refine ⟨Outcome.all ((w.afterFiring n t d).1 :: ds) :: os, congrArg₂ List.cons ?_ known⟩
    exact Prospect.value?_all (congrArg (some _ :: ·) inside)

theorem Course.alike (course : Course t c w errands fs es w') (now : w.deferring = false)
    (agree : AgreeOn P w v) (own : ∀ e ∈ errands, e.Within P t) :
    ∃ gs v', Course t c v errands gs es v' ∧ AgreeOn P w' v' ∧ SameBodies w w' v v' := by
  induction course generalizing v with
  | done w => exact ⟨[], v, .done v, agree, .none rfl rfl⟩
  | quits quits _ behind =>
    obtain ⟨here, others⟩ := List.forall_mem_cons.mp own
    obtain ⟨v₁, quits', agree⟩ := agree.quits here quits
    obtain ⟨gs, v', course, agree, bodies⟩ :=
      behind (quits.quiet.deferring.trans now) (agree.futures _ _) others
    exact ⟨_, v', .quits quits' course, agree, .trans (.none quits.bodies quits'.bodies) bodies⟩
  | deferred _ late _ _ =>
    rw [putsOff_now (within_now now ..)] at late
    cases late
  | @entered w _ n _ _ _ enters late _ behind =>
    obtain ⟨here, others⟩ := List.forall_mem_cons.mp own
    have enters' : Enters n t c v := ⟨enters.accepts, agree.passes here.1 enters.passes⟩
    have within := agree.within here.1 c
    have run : (Errand.run n (n.step.claim t)).Within P t := ⟨here.1.1, here.2⟩
    obtain ⟨gs, v', course, agree, bodies⟩ :=
      behind (within_now now ..) within (List.forall_mem_cons.mpr ⟨run, others⟩)
    exact ⟨gs, v', .entered enters' ((within.putsOff n).trans late) course, agree,
      .trans (.none (bodies_askAt ..) (bodies_askAt ..)) bodies⟩
  | @failed w _ n claim _ _ _ fails _ behind =>
    obtain ⟨_, others⟩ := List.forall_mem_cons.mp own
    have body := agree.afterBody n t c claim
    obtain ⟨gs, v', course, agree', bodies⟩ :=
      behind ((quiet_afterBody ..).deferring.trans now) (body.futures _ _) others
    exact ⟨_, v', .failed fails course, agree', .trans (.afterBody agree n t c claim) bodies⟩
  | @ran w _ _ n claim _ _ _ _ _ succeeds below _ ihBelow ihBehind =>
    obtain ⟨here, others⟩ := List.forall_mem_cons.mp own
    have after := (quiet_afterBody w n t c claim).deferring.trans now
    have body := agree.afterBody n t c claim
    obtain ⟨gs, v₁, inner, inside, bodies⟩ :=
      ihBelow after (body.futures _ _) here.2.attempts
    obtain ⟨_, v', course, rest, bodies'⟩ :=
      ihBehind (below.deferring.trans after) (inside.futures _ _) others
    exact ⟨_, v', .ran succeeds inner course, rest,
      .trans (.afterBody agree n t c claim) (.trans bodies bodies')⟩
  | @fired w _ _ n d _ _ _ _ _ context fires below _ ihBelow ihBehind =>
    obtain ⟨here, others⟩ := List.forall_mem_cons.mp own
    have fires' : Fires n t d v :=
      ⟨fires.accepts, fires.isMatch, (agree.matchData n t d).passes here.1 fires.passes⟩
    have after := (quiet_afterFiring w n t d).deferring.trans now
    obtain ⟨same, firing⟩ := agree.afterFiring here.1 d
    obtain ⟨gs, v₁, inner, inside, bodies⟩ :=
      ihBelow after (firing.futures _ _) here.2.attempts
    obtain ⟨_, v', course, rest, bodies'⟩ :=
      ihBehind (below.deferring.trans after) (inside.futures _ _) others
    rw [← same]
    exact ⟨_, v', .fired context fires' inner course, rest,
      .trans (.none (bodies_afterFiring ..) (bodies_afterFiring ..)) (.trans bodies bodies')⟩

/-- Between two worlds nothing was put off: there are futures `fs`, complete with the outcomes `os`,
and the bodies `bs` ran. -/
structure Prompt (w w' : World ν) (fs : List FutureId) (os : List Outcome) (bs : List Entry) :
    Prop where
  deferring : w'.deferring = w.deferring
  bodies : w'.bodies = w.bodies ++ bs
  grows : ∀ ways, w.futures.Wired ways [] →
    ∃ more es, Grows w w' ways more [] fs es ∧ es.map Prospect.value? = os.map some

namespace Prompt

variable {gs : List FutureId} {os os' : List Outcome} {bs bs' : List Entry} {ways : Wiring}

theorem nothing (w : World ν) : Prompt w w [] [] [] :=
  ⟨rfl, (List.append_nil _).symm, fun _ wired => ⟨_, _, .nothing wired, rfl⟩⟩

theorem completed (w : World ν) (o : Outcome) :
    Prompt w (w.completed o).2 [(w.completed o).1] [o] [] :=
  ⟨rfl, (List.append_nil _).symm, fun _ wired => ⟨_, _, grows_completed wired o, rfl⟩⟩

theorem append (first : Prompt w w' fs os bs) (second : Prompt w' w'' gs os' bs') :
    Prompt w w'' (fs ++ gs) (os ++ os') (bs ++ bs') where
  deferring := second.deferring.trans first.deferring
  bodies := by rw [second.bodies, first.bodies, List.append_assoc]
  grows ways wired := by
    obtain ⟨more, es, grows, known⟩ := first.grows ways wired
    obtain ⟨more', ds, grows', known'⟩ := second.grows _ grows.wired
    exact ⟨_, _, grows.append grows', by rw [List.map_append, known, known', List.map_append]⟩

theorem all (prompt : Prompt w w' fs os bs) :
    Prompt w (w'.all fs).2 [(w'.all fs).1] [Outcome.all os] bs where
  deferring := prompt.deferring
  bodies := prompt.bodies
  grows ways wired := by
    obtain ⟨more, es, grows, known⟩ := prompt.grows ways wired
    obtain ⟨more', joined⟩ := grows.all
    exact ⟨_, _, joined, congrArg (· :: []) (Prospect.value?_all known)⟩

theorem values (prompt : Prompt w w' fs os bs) (wired : w.futures.Wired ways []) :
    fs.map w'.futures.value? = os.map some := by
  obtain ⟨more, es, grows, known⟩ := prompt.grows ways wired
  exact (grows.wired.values_eq grows.reads).trans known

end Prompt

theorem Course.prompt (course : Course t c w errands fs es w') {os : List Outcome}
    (known : es.map Prospect.value? = os.map some) {bs : List Entry}
    (bodies : w'.bodies = w.bodies ++ bs) : Prompt w w' fs os bs := by
  refine ⟨course.deferring, bodies, fun ways wired => ?_⟩
  obtain ⟨more, new, grows⟩ := course.grows wired
  -- A prospect whose outcome is known has no task left.
  have idle : es.flatMap (·.tasks) = [] := by
    rw [List.flatMap_eq_nil_iff]
    intro e member
    by_contra waits
    have unknown := Prospect.value?_eq_none_iff.mpr waits
    have listed : e.value? ∈ os.map some := known ▸ List.mem_map_of_mem member
    rw [unknown] at listed
    obtain ⟨_, _, impossible⟩ := List.mem_map.mp listed
    cases impossible
  rw [grows.prospects, List.map_eq_nil_iff] at idle
  subst idle
  exact ⟨more, es, grows, known⟩

/-- What a call comes to in a world that puts nothing off, it comes to in every world that agrees on
a region with the pairs of its nodes. -/
theorem call_determined {m : Move} {r : World ν → FutureId × World ν}
    (is : m.call? = some (t, c, errands))
    (returns : ∀ v, v.perform m = (r v).2 ∧ v.answer? m = some (.future (r v).1))
    (now : w.deferring = false) (own : ∀ e ∈ errands, e.Within P t) :
    ∃ o bs, ∀ v, AgreeOn P w v →
      Prompt v (r v).2 [(r v).1] [o] bs ∧ AgreeOn P (r w).2 (r v).2 := by
  obtain ⟨fs, es, w', course, performed, -⟩ := call_course is w
  obtain ⟨os, known⟩ := course.known now
  obtain ⟨_, _, _, _, bs, ran, _⟩ := course.alike now (.refl P w) own
  refine ⟨Outcome.all os, bs, fun v agree => ?_⟩
  obtain ⟨gs, v', course', agree', _, ran', bodies⟩ := course.alike now agree own
  obtain rfl := List.append_cancel_left (ran.symm.trans ran')
  obtain ⟨performed', answered⟩ := course'.of_call is
  have returned : (v'.all gs).1 = (r v).1 :=
    Answer.future.inj (Option.some.inj (answered.symm.trans (returns v).2))
  rw [← (returns w).1, ← (returns v).1, ← returned, performed, performed']
  exact ⟨(course'.prompt known bodies).all, agree'.futures _ _⟩

theorem call_outside {m : Move} (is : m.call? = some (t, c, errands))
    (other : ∀ e ∈ errands, e.Within (Outside P) t) (w : World ν) : AgreeOn P w (w.perform m) := by
  obtain ⟨fs, es, w', course, performed, -⟩ := call_course is w
  rw [performed]
  exact (course.agreeOn other).trans (agreeOn_futures ..)

end World

end Cuescript
