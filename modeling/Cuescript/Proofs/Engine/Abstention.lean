import Cuescript.Proofs.Engine.Sequence
import Cuescript.Proofs.Execution.Inquiries

/-!
What a call leaves alone. Scripts that are not dispatched are not visited, and of a script whose
actions are off the triggers are only asked. Main statement: a call runs no body and remembers no
execution of such a script, asks nothing of a script that is not dispatched, and each trigger that
is only asked contributes what a dry run before the call would have said.
-/
namespace Cuescript

def Scope.apartFrom (P : NodeId → Prop) : Scope := ⟨fun n _ _ => ¬ P n.id, fun i => ¬ P i⟩

theorem Deed.isQuestion_of_isTest {d : Deed} (test : d.isTest = true) : d.isQuestion = true := by
  cases d with
  | tested => rfl
  | _ => cases test

abbrev Pair.OfNodes (P : NodeId → Prop) : Pair → Prop := fun p => P p.1

theorem TriggerNode.apart {P : NodeId → Prop} {t : Target} {c : Context} {n : TriggerNode}
    {d : TriggerData} (within : (Errand.fire n d).Within (World.Outside (Pair.OfNodes P)) t) :
    (Errand.fire n d).In (Scope.apartFrom P) t c := within

def TriggerNode.Guards (n : TriggerNode) (t : Target) : Pair → Prop :=
  fun p => ∃ g ∈ n.guards, (g.id, t.id) = p

namespace World

variable {ν : Type} {P : NodeId → Prop} {w w' w'' : World ν} {t : Target} {d : TriggerData}

/-- Of the nodes in `P` no execution is remembered or forgotten between two worlds, and all that the
journal tells of them is what they were asked. -/
structure OnlyAsks (P : NodeId → Prop) (w w' : World ν) : Prop where
  records : ∀ p : Pair, P p.1 → w'.store.records.get? p = w.store.records.get? p
  journal : Adds (fun e => P e.node → e.deed.isQuestion = true) w w'

namespace OnlyAsks

theorem refl (P : NodeId → Prop) (w : World ν) : OnlyAsks P w w :=
  ⟨fun _ _ => rfl, .nothing rfl⟩

theorem trans (first : OnlyAsks P w w') (second : OnlyAsks P w' w'') : OnlyAsks P w w'' where
  records p own := (second.records p own).trans (first.records p own)
  journal := first.journal.trans second.journal

end OnlyAsks

theorem onlyAsks_futures (w : World ν) (futures : Futures ν) :
    OnlyAsks P w { w with futures := futures } := ⟨fun _ _ => rfl, .nothing rfl⟩

theorem Pieces.onlyAsks {s : Scope} (pieces : Pieces s w w') (other : ∀ i, s.owns i → ¬ P i) :
    OnlyAsks P w w' where
  records p own := Pieces.records pieces fun owned => other _ owned own
  journal := by
    refine (Pieces.journal pieces).mono fun e inside own => ?_
    rcases inside with ⟨test, _⟩ | ⟨_, owned⟩
    · exact Deed.isQuestion_of_isTest test
    · exact absurd own (other _ owned)

theorem testTrigger_onlyAsks (P : NodeId → Prop) (w : World ν) (n : TriggerNode) (t : Target)
    (d : TriggerData) : OnlyAsks P w (w.testTrigger n t d).2 := by
  have matched : OnlyAsks P w (w.matchData n t d).2 :=
    ⟨fun _ _ => rfl, .line rfl fun _ => rfl⟩
  rw [testTrigger]
  split
  · exact .refl P w
  · dsimp only
    split
    · exact matched
    · let asked : Scope := ⟨fun _ _ _ => True, fun _ => False⟩
      have guards : Pieces asked (w.matchData n t d).2
          ((w.matchData n t d).2.testAll n.guards t (.ofTrigger d)).2 :=
        pieces_testAll (fun _ _ => trivial) _
      exact matched.trans (Pieces.onlyAsks guards fun _ => False.elim)

end World

namespace Engine

open World

variable {e : Engine} {v : Native} {t : Target} {d : TriggerData} {w : World Announcement}
  {ways : Wiring} {P : NodeId → Prop} {s : Script} {n : TriggerNode}
  {ps : List (Script × TriggerNode)}

theorem mem_destinations {p : Script × TriggerNode} {ss : List Script} :
    p ∈ destinations t d ss ↔ p.1 ∈ ss ∧ p.2 ∈ reached p.1 t d := by
  obtain ⟨s, n⟩ := p
  simp [destinations]

theorem within_reached {Q : Pair → Prop} (own : ∀ i, s.forest.Uses i → Q (i, t.id))
    (member : n ∈ reached s t d) : (Errand.fire n d).Within Q t :=
  Forest.within_fires own d _ (List.mem_map_of_mem (List.mem_filter.mp member).1)

theorem reach_apart (member : n ∈ reached s t d) (other : ∀ i, s.forest.Uses i → ¬ P i)
    (w : World Announcement) : Pieces (Scope.apartFrom P) w (reach w s n t d).2 := by
  have inside : (Errand.fire n d).In (Scope.apartFrom P) t (.ofTrigger d) :=
    TriggerNode.apart (within_reached other member)
  have answered : Pieces (Scope.apartFrom P) w (answer w s n t d).2 := by
    rw [answer]
    split
    · exact call_pieces (m := .fire n t d) rfl (List.forall_mem_singleton.mpr inside) w
    · exact .trans (testTrigger_pieces inside.1 w) (aside_futures ..).pieces
  rw [reach_eq]
  exact .trans answered (aside_futures ..).pieces

theorem tour_apart (members : ∀ p ∈ ps, p.2 ∈ reached p.1 t d)
    (other : ∀ p ∈ ps, ∀ i, p.1.forest.Uses i → ¬ P i) (w : World Announcement) :
    Pieces (Scope.apartFrom P) w (tour w t d ps).2 := by
  induction ps generalizing w with
  | nil => exact .refl
  | cons p rest ih =>
    obtain ⟨s, n⟩ := p
    obtain ⟨member, members⟩ := List.forall_mem_cons.mp members
    obtain ⟨here, other⟩ := List.forall_mem_cons.mp other
    exact .trans (reach_apart member here w) (ih members other _)

theorem reach_onlyAsks (member : n ∈ reached s t d)
    (other : s.settings.executeActions = true → ∀ i, s.forest.Uses i → ¬ P i)
    (w : World Announcement) : OnlyAsks P w (reach w s n t d).2 := by
  cases runs : s.settings.executeActions with
  | true => exact Pieces.onlyAsks (reach_apart member (other runs) w) fun _ => id
  | false =>
    rw [reach_eq, answer, if_neg (Bool.eq_false_iff.mp runs)]
    have asked := testTrigger_onlyAsks P w n t d
    exact asked.trans ((onlyAsks_futures ..).trans (onlyAsks_futures ..))

theorem tour_onlyAsks (members : ∀ p ∈ ps, p.2 ∈ reached p.1 t d)
    (other : ∀ p ∈ ps, p.1.settings.executeActions = true → ∀ i, p.1.forest.Uses i → ¬ P i)
    (w : World Announcement) : OnlyAsks P w (tour w t d ps).2 := by
  induction ps generalizing w with
  | nil => exact .refl P w
  | cons p rest ih =>
    obtain ⟨s, n⟩ := p
    obtain ⟨member, members⟩ := List.forall_mem_cons.mp members
    obtain ⟨here, other⟩ := List.forall_mem_cons.mp other
    exact (reach_onlyAsks member here w).trans (ih members other _)

/-! What a dry run would say of a trigger is not changed by the visits before its own. -/

theorem reach_agreeOn {Q : Pair → Prop} (guards : ∀ g ∈ n.guards, ¬ Q (g.id, t.id))
    (runs : s.settings.executeActions = true → (Errand.fire n d).Within (Outside Q) t)
    (w : World Announcement) : AgreeOn Q w (reach w s n t d).2 := by
  have answered : AgreeOn Q w (answer w s n t d).2 := by
    rw [answer]
    split
    · rename_i executes
      exact call_outside (m := .fire n t d) rfl (List.forall_mem_singleton.mpr (runs executes)) w
    · exact (agreeOn_testTrigger guards w d).trans (agreeOn_futures ..)
  rw [reach_eq]
  exact answered.trans (agreeOn_futures ..)

/-- If the second of two nodes is only asked, the visit of the first has no bearing on its guards. -/
def Spares (t : Target) (d : TriggerData) (p q : Script × TriggerNode) : Prop :=
  q.1.settings.executeActions = false →
    ∀ w, AgreeOn (q.2.Guards t) w (reach w p.1 p.2 t d).2

theorem spares_within {n n' : TriggerNode}
    (apart : ∀ g ∈ n.guards, ∀ g' ∈ n'.guards, g.id ≠ g'.id) : Spares t d (s, n) (s, n') := by
  intro dry w
  refine reach_agreeOn ?_ (fun runs => ?_) w
  · rintro g guard ⟨g', guard', same⟩
    exact apart g guard g' guard' (Prod.ext_iff.mp same).1.symm
  · rw [dry] at runs
    cases runs

theorem spares_between {s' : Script} {n' : TriggerNode}
    (apart : ∀ i ∈ s.forest.outline, i ∉ s'.forest.outline) (member : n ∈ reached s t d)
    (member' : n' ∈ reached s' t d) : Spares t d (s, n) (s', n') := by
  have own : ∀ g' ∈ n'.guards, s'.forest.Uses g'.id :=
    (within_reached (Q := fun p => s'.forest.Uses p.1) (fun _ => id) member').1.2
  have outside : (Errand.fire n d).Within (Outside (n'.Guards t)) t := by
    refine within_reached (fun i uses => ?_) member
    rintro ⟨g', guard', same⟩
    obtain ⟨rfl, _⟩ := Prod.mk.inj same
    exact apart _ (Forest.listed_of_uses uses) (Forest.listed_of_uses (own g' guard'))
  exact fun _ => reach_agreeOn outside.1.2 fun _ => outside

theorem Loaded.spares (loaded : e.Loaded) (t : Target) (d : TriggerData) :
    (destinations t d (e.scripts.values.filter e.isDispatched)).Pairwise (Spares t d) := by
  rw [destinations, List.pairwise_flatMap]
  constructor
  · intro s member
    have triggers := loaded.triggers (List.mem_filter.mp member).1
    rw [List.pairwise_map]
    exact ((triggers.filter _).filter _).imp fun apart => spares_within apart
  · refine (loaded.separate.filter _).imp fun apart p here q there => ?_
    obtain ⟨n, member, rfl⟩ := List.mem_map.mp here
    obtain ⟨n', member', rfl⟩ := List.mem_map.mp there
    exact spares_between apart member member'

/-- A node that is only asked has a future with the outcome of a dry run before all visits. -/
theorem tour_rehearsed (wired : w.futures.Wired ways []) (spares : ps.Pairwise (Spares t d)) :
    ∃ es more new, Grows w (tour w t d ps).2 ways more new ((tour w t d ps).1.map (·.future)) es ∧
      ∀ x ∈ (tour w t d ps).1, x.script.settings.executeActions = false →
        Wiring.Reads (ways ++ more) x.future (.given (w.testTrigger x.node t d).1) := by
  induction ps generalizing w ways with
  | nil => exact ⟨_, _, _, .nothing wired, List.forall_mem_nil _⟩
  | cons p rest ih =>
    obtain ⟨s, n⟩ := p
    obtain ⟨here, spares⟩ := List.pairwise_cons.mp spares
    obtain ⟨e, more, new, first, asked⟩ := reach_grows wired s n t d
    obtain ⟨es, more', new', behind, outcomes⟩ := ih first.wired spares
    rw [List.append_assoc] at outcomes
    refine ⟨_, _, _, first.append behind, List.forall_mem_cons.mpr ⟨fun dry => ?_, ?_⟩⟩
    · have reads := (List.forall₂_cons.mp first.reads).1
      rw [asked dry] at reads
      rw [← List.append_assoc]
      exact reads.append more'
    · intro x member dry
      have listed : (x.script, x.node) ∈ rest :=
        tour_nodes (reach w s n t d).2 t d rest ▸ List.mem_map_of_mem member
      -- The visit of `n` may let guards pass, but none of those that `x` would ask.
      have same := ((here _ listed dry w).testTrigger (fun g guard => ⟨g, guard, rfl⟩) d).1
      rw [← same]
      exact outcomes x member dry

def visited (e : Engine) (v : Native) (d : TriggerData) : World Announcement :=
  match e.adapters.wrap v with
  | none => e.world
  | some t => (tour e.world t d (destinations t d (e.scripts.values.filter e.isDispatched))).2

theorem triggerWith_world (e : Engine) (v : Native) (d : TriggerData) :
    ∃ futures, (e.triggerWith v d).2.world = { e.visited v d with futures := futures } := by
  cases wraps : e.adapters.wrap v with
  | none =>
    rw [triggerWith, visited, wraps]
    exact ⟨_, rfl⟩
  | some t =>
    rw [triggerWith_eq wraps, visited, wraps]
    exact ⟨_, rfl⟩

structure LeavesAlone (e : Engine) (v : Native) (d : TriggerData) (s : Script) : Prop where
  /-- If its actions are off or it is not dispatched, nothing is remembered of its nodes, and none
  of them runs or fires: they are asked at most. -/
  asked : s.settings.executeActions = false ∨ e.isDispatched s = false →
    OnlyAsks (· ∈ s.forest.outline) e.world (e.triggerWith v d).2.world
  /-- If it is not dispatched, its requirements are not asked. -/
  silent : e.isDispatched s = false →
    Pieces (Scope.apartFrom (· ∈ s.forest.outline)) e.world (e.triggerWith v d).2.world
  journal : e.isDispatched s = false →
    Adds (·.node ∉ s.forest.outline) e.world (e.triggerWith v d).2.world
  passed : e.isDispatched s = false → ∀ i ∈ s.forest.outline, ∀ u,
    (e.triggerWith v d).2.world.store.passed.get? (i, u) = e.world.store.passed.get? (i, u)

structure Contributes (e : Engine) (v : Native) (t : Target) (d : TriggerData)
    (later : List Turn) : Prop where
  nodes : (e.visits t d).map (fun x => (x.script, x.node)) =
    destinations t d (e.scripts.values.filter e.isDispatched)
  returned : (e.aftermath v d later).world.futures.Conjoins (e.triggerWith v d).1
    ((e.visits t d).map (·.future))
  /-- A node of a script whose actions are off contributes the outcome of its dry run. -/
  rehearsed : ∀ x ∈ e.visits t d, x.script.settings.executeActions = false →
    (e.aftermath v d later).world.futures.value? x.future =
      some (e.world.testTrigger x.node t d).1

section

variable (loaded : e.Loaded) (member : s ∈ e.scripts.values)

include loaded member

theorem outside_of_other {p : Script × TriggerNode} (other : p.1 ≠ s)
    (reaches : p ∈ destinations t d (e.scripts.values.filter e.isDispatched)) :
    ∀ i, p.1.forest.Uses i → i ∉ s.forest.outline := by
  have listed := (List.mem_filter.mp (mem_destinations.mp reaches).1).1
  exact fun i uses => loaded.disjoint listed member other i (Forest.listed_of_uses uses)

theorem triggerWith_silent (off : e.isDispatched s = false) (v : Native) (d : TriggerData) :
    Pieces (Scope.apartFrom (· ∈ s.forest.outline)) e.world (e.triggerWith v d).2.world := by
  obtain ⟨futures, is⟩ := triggerWith_world e v d
  rw [is]
  refine .trans ?_ (aside_futures ..).pieces
  rw [visited]
  split
  · exact .refl
  · refine tour_apart (fun p reaches => (mem_destinations.mp reaches).2) (fun p reaches => ?_) _
    refine outside_of_other loaded member ?_ reaches
    rintro rfl
    have on := (List.mem_filter.mp (mem_destinations.mp reaches).1).2
    rw [off] at on
    cases on

theorem triggerWith_onlyAsks (off : s.settings.executeActions = false) (v : Native)
    (d : TriggerData) :
    OnlyAsks (· ∈ s.forest.outline) e.world (e.triggerWith v d).2.world := by
  obtain ⟨futures, is⟩ := triggerWith_world e v d
  rw [is]
  refine .trans ?_ (onlyAsks_futures ..)
  rw [visited]
  split
  · exact .refl _ _
  · refine tour_onlyAsks (fun p reaches => (mem_destinations.mp reaches).2)
      (fun p reaches on => ?_) _
    refine outside_of_other loaded member ?_ reaches
    rintro rfl
    rw [off] at on
    cases on

theorem leavesAlone (v : Native) (d : TriggerData) : LeavesAlone e v d s where
  asked := by
    rintro (off | off)
    · exact triggerWith_onlyAsks loaded member off v d
    · exact Pieces.onlyAsks (triggerWith_silent loaded member off v d) fun _ => id
  silent off := triggerWith_silent loaded member off v d
  journal off := by
    refine (Pieces.journal (triggerWith_silent loaded member off v d)).mono fun entry inside => ?_
    rcases inside with ⟨_, n, t, c, asks, is, _⟩ | ⟨_, owned⟩
    · rw [is]
      exact asks
    · exact owned
  passed off i listed u := by
    refine Pieces.passed (triggerWith_silent loaded member off v d) fun n t c asks same => ?_
    obtain ⟨rfl, _⟩ := Prod.mk.inj same
    exact asks listed

end

theorem Sound.contributes (sound : e.Sound) (loaded : e.Loaded)
    (wraps : e.adapters.wrap v = some t) (d : TriggerData) (later : List Turn) :
    Contributes e v t d later := by
  obtain ⟨ways, engaged⟩ := sound.engaged
  obtain ⟨es, more, new, grows, outcomes⟩ := tour_rehearsed engaged.wired (loaded.spares t d)
  obtain ⟨more', joined, reads, parts⟩ := engaged.join grows
  have published : (e.triggerWith v d).2.world.Engaged (ways ++ more ++ more') := by
    rw [triggerWith_eq wraps]
    exact engaged_take joined
  obtain ⟨last, σ, after, substitution, kept⟩ := turns_reads published later
  refine ⟨tour_nodes .., ?_, fun x member dry => ?_⟩
  · rw [triggerWith_eq wraps]
    exact after.conjoins (Conjoined.substitute ⟨es, reads, parts⟩ substitution kept)
  · have given := kept _ _ ((outcomes x member dry).append more')
    rw [substitution.given] at given
    exact after.wired.value?_eq given

/-- A call runs and remembers nothing of scripts whose actions are off, asks nothing of those that
are not dispatched, and has the outcome of a dry run from each trigger that is only asked. -/
theorem triggerWith_abstains (reachable : e.Reachable) (loaded : e.Loaded) (v : Native)
    (d : TriggerData) :
    (∀ s ∈ e.scripts.values, LeavesAlone e v d s) ∧
      ∀ t, e.adapters.wrap v = some t → ∀ later, Contributes e v t d later :=
  ⟨fun _ member => leavesAlone loaded member v d,
    fun _ wraps later => reachable.sound.contributes loaded wraps d later⟩

/-- A script that runs its actions, one whose actions are off, and one that is not dispatched. -/
def mixed : Engine :=
  let adapters := Adapters.empty.registerLabelled .player ""
  let e := start Catalogue.registry adapters .initial (World.start ⟨0⟩ true)
  let e := (e.load (.ofLines "greeter" ["@join", "!say(delay=2s) hello"])).2
  let e := (e.load ⟨"watcher", none, "flow", some ⟨true, false⟩,
    ["?health(check_once=true) 5", "@join(cooldown=1m)", "!say never"]⟩).2
  (e.load ⟨"sleeper", none, "flow", some ⟨false, true⟩,
    ["?health(check_once=true) 5", "@join(cooldown=1m)", "!say nothing"]⟩).2

theorem triggerWith_abstains_mixed :
    mixed.Reachable ∧ mixed.Loaded ∧
      mixed.scripts.values.map (fun s =>
          (s.id, mixed.isDispatched s, s.settings.executeActions)) =
        [("greeter", true, true), ("watcher", true, false), ("sleeper", false, true)] ∧
      mixed.adapters.wrap (.player "steve" 20) = some ⟨"steve", .player "steve" 20⟩ ∧
      (∀ s ∈ mixed.scripts.values,
        LeavesAlone mixed (.player "steve" 20) (.ofIdentifier "join") s) ∧
      Contributes mixed (.player "steve" 20) ⟨"steve", .player "steve" 20⟩ (.ofIdentifier "join")
        [.run [.clock ⟨2000⟩, .run 0]] := by
  have reachable : mixed.Reachable := (((Reachable.start _ _ _ ⟨0⟩ true).load _).load _).load _
  have loaded : mixed.Loaded := (((Loaded.none rfl).load _).load _).load _
  have wraps : mixed.adapters.wrap (.player "steve" 20) = some ⟨"steve", .player "steve" 20⟩ := by
    decide +kernel
  obtain ⟨alone, contributes⟩ :=
    triggerWith_abstains reachable loaded (.player "steve" 20) (.ofIdentifier "join")
  exact ⟨reachable, loaded, by decide +kernel, wraps, alone, contributes _ wraps _⟩

/-- Of the two that are dispatched one waits, and the other was asked only. -/
example :
    let called := mixed.triggerWith (.player "steve" 20) (.ofIdentifier "join")
    (called.2.world.tasks.length, called.2.world.store.passed.entries.map Prod.fst,
        called.2.world.bodies.length) =
      (1, [(⟨2⟩, "steve")], 0) := by
  decide +kernel

end Engine

end Cuescript
