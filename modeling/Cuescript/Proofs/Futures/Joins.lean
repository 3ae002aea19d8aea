import Cuescript.Proofs.Futures.History
import Cuescript.Proofs.Futures.Prospects

/-!
The conjunction of futures, whatever else is done with them. Nobody but its join completes the
future of a conjunction, unless it is asked to; so the places of the join decide it, and they hold
what the parts have come to, in whichever order they did. Main statement: after every operation of a
run that leaves a conjunction to itself, it is complete if and only if all of its parts are, and its
outcome is the conjunction of theirs in the order of the list.
-/
namespace Cuescript.Futures

variable {ν : Type} {s : Futures ν} {due rest : List (Call ν)} {c g h : FutureId} {o : Outcome}
  {l : Listener ν} {j size : Nat} {parts : List FutureId}

def Event.passesTo (c : FutureId) : Event ν → Bool
  | .called _ (.relay g) _ => g = c
  | _ => false

def Operation.completes (c : FutureId) : Operation ν → Bool
  | .complete f _ => f = c
  | _ => false

/-- In a run nobody completes the future, unless it is a join that does. -/
structure LeftAlone (s : Futures ν) (ops : List (Operation ν)) (c : FutureId) : Prop where
  direct : ∀ op ∈ ops, op.completes c = false
  passed : ∀ e ∈ s.history ops, e.passesTo c = false

/-- What surrounds a join `j` of `parts` into `c`: no other join completes `c`, and each place of the
join is filled by its part only. -/
structure Fed (s : Futures ν) (due : List (Call ν)) (c : FutureId) (j : Nat)
    (parts : List FutureId) : Prop where
  closed : s.Closed due
  own : ∀ i, (s.joins.map Join.into)[i]? = some c → i = j
  waiting : ∀ h k, (h, .fill j k) ∈ s.waiting → parts[k]? = some h
  due : ∀ k o, (.fill j k, o) ∈ due → ∃ h, parts[k]? = some h ∧ s.value? h = some o

theorem Fed.assign (fed : s.Fed due c j parts) (known : s.Knows g) (o : Outcome) :
    (s.assign g o).1.Fed ((s.assign g o).2 ++ due) c j parts := by
  cases before : s.value? g with
  | some x =>
    rw [assign_complete before]
    exact fed
  | none =>
    have pending := assign_pending before o
    refine ⟨fed.closed.assign known o, ?_, fun h k waits => ?_, fun k x coming => ?_⟩
    · rw [pending]
      exact fed.own
    · rw [pending] at waits
      exact fed.waiting h k (List.mem_filter.mp waits).1
    · rcases List.mem_append.mp coming with called | coming
      · rw [pending] at called
        obtain ⟨⟨h, l⟩, waits, same⟩ := List.mem_map.mp called
        obtain ⟨rfl, rfl⟩ := Prod.mk.inj same
        obtain ⟨listens, own⟩ := List.mem_filter.mp waits
        obtain rfl : h = g := by simpa using own
        exact ⟨h, fed.waiting h k listens, (value?_assign before known o h).trans (if_pos rfl)⟩
      · obtain ⟨h, part, value⟩ := fed.due k x coming
        exact ⟨h, part, (keeps_assign s g o).values h x value⟩

theorem Fed.enter {d : Call ν} (fed : s.Fed (d :: rest) c j parts) :
    (s.enter d).Fed rest c j parts := by
  refine ⟨fed.closed.enter, ?_, fun h k waits => ?_, fun k o coming => ?_⟩
  · rw [enter_joins]
    exact fed.own
  · rw [enter_waiting] at waits
    exact fed.waiting h k waits
  · obtain ⟨h, part, value⟩ := fed.due k o (List.mem_cons_of_mem _ coming)
    exact ⟨h, part, (enter_value? s d h).trans value⟩

theorem Fed.reply {d : Call ν} (fed : s.Fed (d :: rest) c j parts) :
    (s.enter d).Fed (replies d ++ rest) c j parts := by
  refine { fed.enter with closed := fed.closed.reply, due := fun k o coming => ?_ }
  rcases List.mem_append.mp coming with reply | coming
  · obtain ⟨g, _, relay⟩ := relay_of_reply reply
    cases relay
  · exact fed.enter.due k o coming

theorem Fed.call {d : Call ν} (fed : s.Fed (d :: rest) c j parts) :
    (s.call d).1.Fed ((s.call d).2 ++ rest) c j parts := by
  rw [call_eq]
  split
  · rename_i g o is
    exact fed.enter.assign ((keeps_enter s d).knows (fed.closed.target is)) o
  · exact fed.reply

theorem Fed.target_ne {d : Call ν} (fed : s.Fed (d :: rest) c j parts)
    (other : ∀ k, d.1 ≠ .fill j k) (passes : d.1 ≠ .relay c)
    (is : s.target? d = some (g, o)) : g ≠ c := by
  rintro rfl
  obtain ⟨l, x⟩ := d
  cases l with
  | note | react => cases is
  | relay next =>
    obtain ⟨rfl, -⟩ := Prod.mk.inj (Option.some.inj is)
    exact passes rfl
  | fill i k =>
    simp only [target?, Option.bind_eq_bind, Option.bind_eq_some_iff, Option.pure_def,
      Option.some.injEq, Prod.mk.injEq] at is
    obtain ⟨J, found, _, _, into, -⟩ := is
    refine other k (congrArg (Listener.fill · k) (fed.own i ?_))
    rw [List.getElem?_map, found, Option.map_some, into]

theorem enter_join {d : Call ν} (other : ∀ k, d.1 ≠ .fill j k) :
    (s.enter d).joins[j]? = s.joins[j]? := by
  obtain ⟨l, o⟩ := d
  cases l with
  | note | relay | react => rfl
  | fill i k =>
    have apart : i ≠ j := by
      rintro rfl
      exact other k rfl
    cases found : s.joins[i]? with
    | none => simp only [enter, found]
    | some J =>
      simp only [enter, found]
      exact List.getElem?_set_ne apart

theorem Follows.enter {d : Call ν} (follows : s.Follows (d :: rest) c (.join j size parts))
    (other : ∀ k, d.1 ≠ .fill j k) : (s.enter d).Follows rest c (.join j size parts) := by
  obtain ⟨places, filled, result⟩ := follows
  have skipped := filled.skip other
  refine ⟨places, { skipped with join := ?_, arrived := ?_ }, (enter_value? s d c).trans result⟩
  · exact (enter_join other).trans filled.join
  · intro k h place part here
    refine (skipped.arrived k h place part here).congr (enter_value? s d h) ?_ fun _ => id
    rw [enter_waiting]
    exact id

theorem Fed.fill {k : Nat} (fed : s.Fed ((.fill j k, o) :: rest) c j parts)
    (follows : s.Follows ((.fill j k, o) :: rest) c (.join j size parts)) :
    (s.fill j k o).1.Follows ((s.fill j k o).2 ++ rest) c (.join j size parts) := by
  obtain ⟨h, part, value⟩ := fed.due k o List.mem_cons_self
  obtain ⟨places, filled, result⟩ := follows
  have made : s.Knows c :=
    fed.closed.joins c (List.mem_map_of_mem (List.mem_of_getElem? filled.join))
  have put := filled.put part value
  have result : Futures.value? { s with joins := s.joins.set j ⟨c, places.set k (some o)⟩ } c =
      (Join.mk c places).result? := result
  rw [Futures.fill, filled.join]
  dsimp only
  generalize same : Futures.mk s.values (s.joins.set j ⟨c, places.set k (some o)⟩) s.waiting s.heard
    = s' at put result
  have made : s'.Knows c := same ▸ made
  split
  · rename_i total full
    cases before : s'.value? c with
    | none =>
      refine ⟨_, put.assign before made total, ?_⟩
      rw [value?_assign before made, if_pos rfl, full]
    | some x =>
      -- The join was full before, so nothing changes.
      have was : (Join.mk c places).result? = some x := result.symm.trans before
      have same := filled.put_full part value (Join.result?_eq_some was)
      rw [assign_complete before]
      refine ⟨_, put, result.trans ?_⟩
      rw [same]
  · rename_i still
    exact ⟨_, put, result.trans ((Join.result?_set still).trans still.symm)⟩

theorem Fed.follows {d : Call ν} (fed : s.Fed (d :: rest) c j parts) (passes : d.1 ≠ .relay c)
    (follows : s.Follows (d :: rest) c (.join j size parts)) :
    (s.call d).1.Follows ((s.call d).2 ++ rest) c (.join j size parts) := by
  by_cases own : ∃ k, d.1 = .fill j k
  · obtain ⟨k, is⟩ := own
    obtain ⟨l, o⟩ := d
    obtain rfl : l = .fill j k := is
    exact fed.fill follows
  · have other : ∀ k, d.1 ≠ .fill j k := fun k is => own ⟨k, is⟩
    have entered := follows.enter other
    rw [call_eq]
    split
    · rename_i g o is
      have known := (keeps_enter s d).knows (fed.closed.target is)
      cases before : (s.enter d).value? g with
      | some x =>
        rw [assign_complete before]
        exact entered
      | none => exact entered.assign (fed.target_ne other passes is).symm before known o
    · exact entered.congr rfl (fun _ _ => rfl) (fun _ => id) (fun _ => List.mem_append_right _)
        fun _ _ => id

/-- The future `c` is the conjunction of `parts`, as far as they have been registered. -/
structure Joined (s : Futures ν) (calls : List (Call ν)) (c : FutureId) (j size : Nat)
    (parts : List FutureId) : Prop extends s.Fed calls c j parts where
  follows : s.Follows calls c (.join j size parts)
  known : ∀ h ∈ parts, s.Knows h

theorem Joined.made (joined : s.Joined due c j size parts) : s.Knows c := by
  obtain ⟨places, filled, _⟩ := joined.follows
  exact joined.closed.joins c (List.mem_map_of_mem (List.mem_of_getElem? filled.join))

theorem Joined.settle {due : List (Due ν)} (joined : s.Joined (due.map Due.call) c j size parts)
    (alone : ∀ e ∈ s.settleLog due, e.passesTo c = false) :
    (s.settle (due.map Due.call)).Joined [] c j size parts := by
  induction s, due using Futures.settleLog.induct with
  | case1 s =>
    rw [List.map_nil, Futures.settle]
    exact joined
  | case2 s d rest ih =>
    rw [settleLog, callEvents, List.cons_append, List.forall_mem_cons,
      List.forall_mem_append] at alone
    obtain ⟨first, _, later⟩ := alone
    have passes : d.call.1 ≠ .relay c := by
      intro relay
      rw [relay] at first
      simp [Event.passesTo] at first
    have next : (s.call d.call).1.Joined ((s.released d ++ rest).map Due.call) c j size parts := by
      rw [List.map_append, map_call_released]
      exact ⟨joined.call, joined.toFed.follows passes joined.follows,
        fun h part => (keeps_call s d.call).knows (joined.known h part)⟩
    have settled := ih next later
    rw [List.map_append, map_call_released] at settled
    rw [List.map_cons, Futures.settle]
    exact settled

theorem Joined.onComplete {parts' : List FutureId} (joined : s.Joined [] c j size parts)
    (known : s.Knows h) (admits : s.Admits l)
    (alone : ∀ e ∈ s.onCompleteLog h l, e.passesTo c = false)
    (more : parts <+: parts') (all : ∀ f ∈ parts', s.Knows f)
    (new : ∀ k, l = .fill j k → parts'[k]? = some h)
    (follows : ∀ (s' : Futures ν) due, s'.values = s.values → s'.joins = s.joins →
      (∀ e ∈ s.waiting, e ∈ s'.waiting) → s'.Carried due h l none →
      s'.Follows due c (.join j size parts')) :
    (s.onComplete h l).Joined [] c j size parts' := by
  have waiting : ∀ f k, (f, .fill j k) ∈ s.waiting → parts'[k]? = some f := by
    intro f k waits
    have part := joined.waiting f k waits
    obtain ⟨tail, rfl⟩ := more
    rw [List.getElem?_append_left (List.getElem?_eq_some_iff.mp part).1, part]
  have closed := joined.closed.onComplete known admits
  rw [onCompleteLog] at alone
  rw [Futures.onComplete] at closed ⊢
  cases value : s.value? h with
  | some o =>
    rw [value, List.forall_mem_cons] at alone
    suffices called : s.Joined ([(⟨some h, l, o⟩ : Due ν)].map Due.call) c j size parts' from
      called.settle alone.2
    refine ⟨⟨?_, joined.own, waiting, fun k x coming => ?_⟩, ?_, all⟩
    · refine { joined.closed with due := fun l' x coming => ?_ }
      obtain ⟨rfl, -⟩ := Prod.mk.inj (List.mem_singleton.mp coming)
      exact admits
    · obtain ⟨fill, rfl⟩ := Prod.mk.inj (List.mem_singleton.mp coming)
      exact ⟨h, new k fill.symm, value⟩
    · refine follows s _ rfl rfl (fun _ => id) ?_
      rw [Carried, value]
      exact .inr ⟨rfl, List.mem_singleton_self _⟩
  | none =>
    rw [value] at closed
    refine ⟨⟨closed, joined.own, fun f k waits => ?_, fun _ _ coming => by cases coming⟩, ?_, all⟩
    · rcases List.mem_append.mp waits with before | last
      · exact waiting f k before
      · obtain ⟨rfl, fill⟩ := Prod.mk.inj (List.mem_singleton.mp last)
        exact new k fill.symm
    · refine follows _ [] rfl rfl (fun _ => List.mem_append_left _) ?_
      have still : Futures.value? { s with waiting := s.waiting ++ [(h, l)] } h = none := value
      rw [Carried, still]
      exact ⟨rfl, List.mem_append_right _ (List.mem_singleton_self _)⟩

theorem Joined.listen (joined : s.Joined [] c j size parts) (known : s.Knows h)
    (alone : ∀ e ∈ s.onCompleteLog h (.fill j parts.length), e.passesTo c = false) :
    (s.onComplete h (.fill j parts.length)).Joined [] c j size (parts ++ [h]) := by
  obtain ⟨places, filled, result⟩ := joined.follows
  have join := (List.getElem?_eq_some_iff.mp filled.join).1
  refine joined.onComplete known ⟨List.forall_mem_nil _, ?_⟩ alone (List.prefix_append ..) ?_ ?_ ?_
  · rintro _ _ ⟨⟩
    exact join
  · rw [List.forall_mem_append, List.forall_mem_singleton]
    exact ⟨joined.known, known⟩
  · rintro _ ⟨⟩
    simp
  · intro s' due values joins more carried
    have value : ∀ f, s'.value? f = s.value? f := fun f => by rw [value?, value?, values]
    refine ⟨places, ⟨joins ▸ filled.join, filled.length, ?_, ?_⟩, (value _).trans result⟩
    · intro k f place part here
      rcases Nat.lt_or_ge k parts.length with old | new
      · rw [List.getElem?_append_left old] at part
        exact (filled.arrived k f place part here).congr (value f) (more _)
          fun _ coming => by cases coming
      · obtain rfl := filled.empty k place new here
        have bound := (List.getElem?_eq_some_iff.mp part).1
        rw [List.length_append, List.length_singleton] at bound
        obtain rfl : k = parts.length := by omega
        obtain rfl : h = f := by simpa using part
        exact carried
    · intro k place beyond here
      rw [List.length_append] at beyond
      exact filled.empty k place (Nat.le_of_add_right_le beyond) here

theorem Joined.listenAll {fs : List FutureId} (joined : s.Joined [] c j size parts)
    (known : ∀ f ∈ fs, s.Knows f)
    (alone : ∀ e ∈ s.listenAllLog j parts.length fs, e.passesTo c = false) :
    (s.listenAll j parts.length fs).Joined [] c j size (parts ++ fs) := by
  induction fs generalizing s parts with
  | nil =>
    rw [List.append_nil]
    exact joined
  | cons f rest ih =>
    rw [listenAllLog, List.forall_mem_append] at alone
    have each := List.forall_mem_cons.mp known
    have keeps := keeps_onComplete s f (.fill j parts.length)
    have longer : (parts ++ [f]).length = parts.length + 1 := List.length_append
    have next := ih (joined.listen each.1 alone.1) (fun f' member => keeps.knows (each.2 f' member))
      (longer ▸ alone.2)
    rw [longer, List.append_assoc] at next
    exact next

/-- Whatever is registered elsewhere, a conjunction stays what it is. -/
theorem Joined.elsewhere (joined : s.Joined [] c j size parts) (known : s.Knows h)
    (admits : s.Admits l) (other : ∀ k, l ≠ .fill j k)
    (alone : ∀ e ∈ s.onCompleteLog h l, e.passesTo c = false) :
    (s.onComplete h l).Joined [] c j size parts := by
  refine joined.onComplete known admits alone List.prefix_rfl joined.known
    (fun k fill => absurd fill (other k)) ?_
  intro s' due values joins more _
  have value : ∀ f, s'.value? f = s.value? f := fun f => by rw [value?, value?, values]
  refine joined.follows.congr (value c) (fun h _ => value h) more (List.forall_mem_nil _) ?_
  rw [joins]
  exact fun _ _ => id

theorem Joined.assign (joined : s.Joined [] c j size parts) (known : s.Knows g) (apart : g ≠ c)
    (o : Outcome) : (s.assign g o).1.Joined (s.assign g o).2 c j size parts := by
  have fed := joined.toFed.assign known o
  have kept : ∀ h ∈ parts, (s.assign g o).1.Knows h :=
    fun h part => (keeps_assign s g o).knows (joined.known h part)
  cases before : s.value? g with
  | some x =>
    rw [assign_complete before]
    exact joined
  | none =>
    have follows := joined.follows.assign apart.symm before known o
    rw [List.append_nil] at fed follows
    exact ⟨fed, follows, kept⟩

theorem Joined.append (joined : s.Joined [] c j size parts) (v : Option Outcome)
    {joins : List Join} (into : ∀ i ∈ joins, i.into = ⟨s.values.length⟩) :
    Joined { s with values := s.values ++ [v], joins := s.joins ++ joins } [] c j size parts := by
  have keeps := keeps_append s v joins
  have value : ∀ {h : FutureId}, s.Knows h →
      Futures.value? { s with values := s.values ++ [v], joins := s.joins ++ joins } h =
        s.value? h := by
    intro h known
    rw [value?_append, if_neg (Nat.ne_of_lt known)]
  refine ⟨⟨joined.closed.append v into, fun i is => ?_, joined.waiting,
    fun _ _ coming => by cases coming⟩, ?_, fun h part => keeps.knows (joined.known h part)⟩
  · rw [List.map_append] at is
    rcases Nat.lt_or_ge i (s.joins.map Join.into).length with old | new
    · rw [List.getElem?_append_left old] at is
      exact joined.own i is
    · rw [List.getElem?_append_right new] at is
      obtain ⟨J, member, rfl⟩ := List.mem_map.mp (List.mem_of_getElem? is)
      have made := joined.made
      rw [into J member] at made
      exact absurd made (Nat.lt_irrefl _)
  · refine joined.follows.congr (value joined.made) (fun h part => value (joined.known h part))
      (fun _ => id) (fun _ => id) fun i J found => ?_
    rw [List.getElem?_append_left (List.getElem?_eq_some_iff.mp found).1]
    exact found

theorem joined_all {f f' : FutureId} {fs : List FutureId} (closed : s.Closed [])
    (known : ∀ h ∈ f :: f' :: fs, s.Knows h)
    (alone : ∀ e ∈ s.allLog (f :: f' :: fs), e.passesTo (s.all (f :: f' :: fs)).1 = false) :
    (s.all (f :: f' :: fs)).2.Joined [] (s.all (f :: f' :: fs)).1 s.joins.length
      (f :: f' :: fs).length (f :: f' :: fs) := by
  have keeps := keeps_append s none
    [⟨⟨s.values.length⟩, List.replicate (f :: f' :: fs).length none⟩]
  have unknown : ¬ s.Knows ⟨s.values.length⟩ := Nat.lt_irrefl _
  have start : Joined { s with
      values := s.values ++ [none]
      joins := s.joins ++ [⟨⟨s.values.length⟩, List.replicate (f :: f' :: fs).length none⟩] }
      [] ⟨s.values.length⟩ s.joins.length (f :: f' :: fs).length [] := by
    refine ⟨⟨closed.append none (List.forall_mem_singleton.mpr rfl), fun i is => ?_,
      fun h k waits => ?_, fun _ _ coming => by cases coming⟩, ?_, List.forall_mem_nil _⟩
    · rw [List.map_append] at is
      rcases Nat.lt_or_ge i (s.joins.map Join.into).length with old | new
      · rw [List.getElem?_append_left old] at is
        exact absurd (closed.joins _ (List.mem_of_getElem? is)) unknown
      · have bound := (List.getElem?_eq_some_iff.mp is).1
        simp only [List.length_append, List.length_map, List.length_singleton] at bound new
        omega
    · obtain ⟨_, _, admits⟩ := closed.waiting h _ waits
      exact absurd (admits.join _ k rfl) (Nat.lt_irrefl _)
    · refine ⟨List.replicate (f :: f' :: fs).length none,
        ⟨?_, List.length_replicate, nofun, ?_⟩, ?_⟩
      · simp
      · intro k place _ here
        exact List.eq_of_mem_replicate (List.mem_of_getElem? here)
      · rw [value?_append, if_pos rfl]
        simp [Join.result?]
  exact start.listenAll (fun h part => keeps.knows (known h part)) alone

theorem Joined.listenElsewhere {i k : Nat} {fs : List FutureId}
    (joined : s.Joined [] c j size parts) (apart : i ≠ j) (join : i < s.joins.length)
    (known : ∀ f ∈ fs, s.Knows f) (alone : ∀ e ∈ s.listenAllLog i k fs, e.passesTo c = false) :
    (s.listenAll i k fs).Joined [] c j size parts := by
  induction fs generalizing s k with
  | nil => exact joined
  | cons f rest ih =>
    have each := List.forall_mem_cons.mp known
    have keeps := keeps_onComplete s f (.fill i k)
    rw [listenAllLog, List.forall_mem_append] at alone
    refine ih (joined.elsewhere each.1 ⟨List.forall_mem_nil _, ?_⟩ ?_ alone.1)
      (Nat.lt_of_lt_of_le join keeps.joins) (fun f' member => keeps.knows (each.2 f' member))
      alone.2
    · rintro _ _ ⟨⟩
      exact join
    · rintro _ ⟨⟩
      exact apart rfl

theorem Joined.pending (joined : s.Joined [] c j size parts) :
    s.pending.2.Joined [] c j size parts := by
  have added := joined.append none (List.forall_mem_nil _)
  rw [List.append_nil] at added
  exact added

theorem Joined.completed (joined : s.Joined [] c j size parts) (o : Outcome) :
    (s.completed o).2.Joined [] c j size parts := by
  have added := joined.append (some o) (List.forall_mem_nil _)
  rw [List.append_nil] at added
  exact added

theorem Joined.all {fs : List FutureId} (joined : s.Joined [] c j size parts)
    (known : ∀ f ∈ fs, s.Knows f) (alone : ∀ e ∈ s.allLog fs, e.passesTo c = false) :
    (s.all fs).2.Joined [] c j size parts := by
  match fs with
  | [] => exact joined.completed .empty
  | [f] => exact joined
  | f :: f' :: rest =>
    obtain ⟨places, filled, _⟩ := joined.follows
    have inside := (List.getElem?_eq_some_iff.mp filled.join).1
    refine Joined.listenElsewhere (joined.append none (List.forall_mem_singleton.mpr rfl))
      (Nat.ne_of_gt inside) ?_ (fun h part => (keeps_append s none _).knows (known h part)) alone
    rw [List.length_append]
    exact Nat.lt_succ_self _

theorem Joined.complete (joined : s.Joined [] c j size parts) (known : s.Knows g) (apart : g ≠ c)
    (alone : ∀ e ∈ s.completeLog g o, e.passesTo c = false) :
    (s.complete g o).2.Joined [] c j size parts := by
  rw [completeLog, List.forall_mem_cons] at alone
  have same : ((s.assign g o).2.map fun d => (⟨some g, d⟩ : Due ν)).map Due.call =
      (s.assign g o).2 := by
    simp [Function.comp_def]
  have assigned := joined.assign known apart o
  rw [← same] at assigned
  have settled := assigned.settle alone.2
  rw [same] at settled
  exact settled

theorem Joined.perform {op : Operation ν} (joined : s.Joined [] c j size parts)
    (fits : op.Fits s) (direct : op.completes c = false)
    (alone : ∀ e ∈ s.log op, e.passesTo c = false) :
    (s.perform op).Joined [] c j size parts := by
  cases op with
  | pending => exact joined.pending
  | completed o => exact joined.completed o
  | clone f => exact joined
  | all fs => exact joined.all fits alone
  | combine f g =>
    exact joined.all (List.forall_mem_cons.mpr ⟨fits.1, List.forall_mem_singleton.mpr fits.2⟩) alone
  | complete f o => exact joined.complete fits (of_decide_eq_false direct) alone
  | onComplete f l =>
    refine joined.elsewhere fits.1 (admits_of_caller fits.2.1 fits.2.2) ?_ alone
    rintro k rfl
    cases fits.2.1

theorem Joined.play {ops : List (Operation ν)} (joined : s.Joined [] c j size parts)
    (valid : s.Valid ops) (alone : s.LeftAlone ops c) : (s.play ops).Joined [] c j size parts := by
  induction ops generalizing s with
  | nil => exact joined
  | cons op rest ih =>
    obtain ⟨direct, passed⟩ := alone
    rw [List.forall_mem_cons] at direct
    rw [history, List.forall_mem_append] at passed
    exact ih (joined.perform valid.1 direct.1 passed.1) valid.2 ⟨direct.2, passed.2⟩

theorem Joined.value?_eq (joined : s.Joined [] c j parts.length parts) :
    s.value? c = (Join.mk c (parts.map s.value?)).result? := by
  obtain ⟨places, filled, result⟩ := joined.follows
  have same : places = parts.map s.value? := by
    apply List.ext_getElem
    · rw [filled.length, List.length_map]
    · intro k inside inside'
      rw [List.getElem_map]
      rw [List.length_map] at inside'
      exact (filled.arrived k _ _ (List.getElem?_eq_getElem inside')
        (List.getElem?_eq_getElem inside)).settled
  rw [result, same]

/-- The future `c` is the conjunction of `fs`: complete when all of them are, with the conjunction of
their outcomes in the order of the list. -/
structure Conjoins (s : Futures ν) (c : FutureId) (fs : List FutureId) : Prop where
  complete : s.isComplete c = true ↔ ∀ f ∈ fs, s.isComplete f = true
  outcome : ∀ os : List Outcome, fs.map s.value? = os.map some → s.value? c = some (.all os)

theorem conjoins_of_value? {fs : List FutureId}
    (is : s.value? c = (Join.mk c (fs.map s.value?)).result?) : s.Conjoins c fs := by
  refine ⟨?_, fun os same => ?_⟩
  · rw [isComplete, is, Join.result?]
    split
    · rename_i full
      simpa [isComplete] using full
    · rename_i partly
      simpa [isComplete] using partly
  · rw [is, same]
    simp [Join.result?]

theorem result?_singleton (c : FutureId) (v : Option Outcome) : (Join.mk c [v]).result? = v := by
  cases v <;> rfl

/-- A conjunction that is left alone is complete when all of its parts are, and then has the
conjunction of their outcomes, in whichever order they came. -/
theorem play_conjoins {before after : List (Operation ν)} {fs : List FutureId}
    (valid : (empty : Futures ν).Valid (before ++ .all fs :: after))
    (alone : LeftAlone (empty.play before) (.all fs :: after) ((empty.play before).all fs).1) :
    (empty.play (before ++ .all fs :: after)).Conjoins ((empty.play before).all fs).1 fs := by
  obtain ⟨earlier, fits, later⟩ := valid_append.mp valid
  have closed := closed_play earlier
  rw [play_append]
  generalize (empty : Futures ν).play before = s at closed fits later alone
  obtain ⟨direct, passed⟩ := alone
  rw [List.forall_mem_cons] at direct
  rw [history, List.forall_mem_append] at passed
  apply conjoins_of_value?
  rcases fs with _ | ⟨f, _ | ⟨f', rest⟩⟩
  · have made : (s.all []).2.value? (s.all []).1 = some .empty :=
      (value?_append s (some .empty) s.joins ⟨s.values.length⟩).trans (if_pos rfl)
    exact (keeps_play _ after).values _ _ made
  · exact (result?_singleton f _).symm
  · exact ((joined_all closed fits passed.1).play later ⟨direct.2, passed.2⟩).value?_eq

/-- Two futures, the second complete, and their conjunction. -/
def shared : List (Operation String) := [.pending, .completed (.failed "late"), .all [⟨0⟩, ⟨1⟩]]

def release : List (Operation String) :=
  [.onComplete ⟨3⟩ (.note "all"), .onComplete ⟨2⟩ (.relay ⟨0⟩), .complete ⟨0⟩ (.failed "early")]

theorem play_conjoins_shared :
    (empty.play (shared ++ .all [⟨0⟩, ⟨2⟩, ⟨0⟩] :: release)).Conjoins ⟨3⟩ [⟨0⟩, ⟨2⟩, ⟨0⟩] ∧
      (empty.play (shared ++ .all [⟨0⟩, ⟨2⟩, ⟨0⟩] :: release)).value? ⟨3⟩ =
        some (.failure ["early", "early", "late", "early"]) := by
  have valid : (empty : Futures String).Valid (shared ++ .all [⟨0⟩, ⟨2⟩, ⟨0⟩] :: release) := by
    decide +kernel
  have made : ((empty.play shared).all [⟨0⟩, ⟨2⟩, ⟨0⟩]).1 = ⟨3⟩ := by decide +kernel
  have alone : LeftAlone (empty.play shared) (.all [⟨0⟩, ⟨2⟩, ⟨0⟩] :: release) ⟨3⟩ :=
    ⟨by decide +kernel, by decide +kernel⟩
  have conjoins := play_conjoins valid (made ▸ alone)
  rw [made] at conjoins
  exact ⟨conjoins, by decide +kernel⟩

end Cuescript.Futures
