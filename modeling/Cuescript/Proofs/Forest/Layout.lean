import Cuescript.Forest.Placement
import Cuescript.Proofs.Forest.Shape
import Cuescript.Proofs.Positions

/-!
The nodes of a script by position. What a directive becomes is a function of the script and of the
place where it stands, and the forest is the list of these nodes at the places that are roots. The
pieces are read from the front and their lists are matched with positions from the back, so each
statement here is about what is left of the script from some position on.
-/
namespace Cuescript

namespace Item

def kind : Item → Kind
  | .requirement _ => .requirement
  | .action _ => .action
  | .trigger _ => .trigger

theorem isAction_iff (i : Item) : i.isAction = true ↔ i.kind = .action := by
  cases i <;> simp [isAction, step?, kind]

end Item

namespace Layout

open Shape

variable (items : List Item)

def kinds : List Kind := items.map Item.kind

def stepAt (k : Nat) : ActionStep := (items[k]?.bind Item.step?).getD default

def requirementAt (k : Nat) : RequirementNode := (items[k]?.bind Item.requirement?).getD default

def guardsAt : Nat → List RequirementNode
  | 0 => []
  | k + 1 =>
    match items[k]? with
    | some (.requirement n) => guardsAt k ++ [n]
    | _ => []

def inRun : Nat → Bool
  | 0 => false
  | k + 1 => items[k]?.any Item.isAction

def nodeAt (k : Nat) : ActionNode :=
  if inRun items k then (stepAt items k).follower
  else (stepAt items k).head (guardsAt items k) ((items.drop (k + 1)).takeWhile Item.isAction)

def triggerAt (k : Nat) : TriggerNode :=
  match items[k]? with
  | some (.trigger n) =>
    { n with
      guards := guardsAt items k
      actions := Piece.actionsAfter (Piece.ofItems false [] (items.drop (k + 1))) }
  | _ => default

def pieceAt (k : Nat) : Piece :=
  match items[k]? with
  | some (.trigger n) => .trigger { n with guards := guardsAt items k }
  | _ => .run (nodeAt items k)

def Start (k : Nat) : Prop := Head (kinds items) k ∨ (kinds items)[k]? = some .trigger

variable {items}

theorem getElem?_kinds (k : Nat) : (kinds items)[k]? = items[k]?.map Item.kind := List.getElem?_map

theorem kinds_of_item {k : Nat} {i : Item} (here : items[k]? = some i) :
    (kinds items)[k]? = some i.kind := by
  rw [getElem?_kinds, here, Option.map_some]

theorem item_of_kind {k : Nat} {kind : Kind} (here : (kinds items)[k]? = some kind) :
    ∃ i, items[k]? = some i ∧ i.kind = kind := by
  rw [getElem?_kinds] at here
  exact Option.map_eq_some_iff.mp here

theorem step_of_action {k : Nat} (action : (kinds items)[k]? = some .action) :
    items[k]? = some (.action (stepAt items k)) := by
  obtain ⟨i, here, same⟩ := item_of_kind action
  cases i with
  | action s => simp [stepAt, here, Item.step?]
  | requirement n => cases same
  | trigger n => cases same

theorem requirement_of_kind {k : Nat} (requirement : (kinds items)[k]? = some .requirement) :
    items[k]? = some (.requirement (requirementAt items k)) := by
  obtain ⟨i, here, same⟩ := item_of_kind requirement
  cases i with
  | requirement n => simp [requirementAt, here, Item.requirement?]
  | action s => cases same
  | trigger n => cases same

theorem trigger_of_kind {k : Nat} (trigger : (kinds items)[k]? = some .trigger) :
    ∃ n, items[k]? = some (.trigger n) := by
  obtain ⟨i, here, same⟩ := item_of_kind trigger
  cases i with
  | trigger n => exact ⟨n, here⟩
  | requirement n => cases same
  | action s => cases same

theorem front {k : Nat} {i : Item} {rest : List Item} (left : items.drop k = i :: rest) :
    items[k]? = some i ∧ items.drop (k + 1) = rest := by
  constructor
  · rw [← Nat.add_zero k, ← List.getElem?_drop, left, List.getElem?_cons_zero]
  · rw [← List.tail_drop, left, List.tail_cons]

theorem beyond {k j : Nat} (left : items.drop k = []) (later : k ≤ j) :
    (kinds items)[j]? = none := by
  have short := List.drop_eq_nil_iff.mp left
  rw [getElem?_kinds, List.getElem?_eq_none (by omega), Option.map_none]

theorem not_start_beyond {k j : Nat} (left : items.drop k = []) : ¬ (k ≤ j ∧ Start items j) := by
  rintro ⟨later, start⟩
  have none := beyond left later
  rcases start with head | trigger
  · rw [head.action] at none
    cases none
  · rw [trigger] at none
    cases none

theorem inRun_succ {k : Nat} {i : Item} (here : items[k]? = some i) :
    inRun items (k + 1) = i.isAction := by
  simp [inRun, here]

theorem inRun_iff {k : Nat} :
    inRun items k = true ↔ ∃ j, j + 1 = k ∧ (kinds items)[j]? = some .action := by
  cases k with
  | zero => simp [inRun]
  | succ k =>
    simp only [inRun, Option.any_eq_true, Nat.add_right_cancel_iff, exists_eq_left, getElem?_kinds,
      Option.map_eq_some_iff, Item.isAction_iff]

theorem head_iff {k : Nat} :
    Head (kinds items) k ↔ (kinds items)[k]? = some .action ∧ inRun items k = false := by
  rw [← Bool.not_eq_true, inRun_iff]
  constructor
  · rintro ⟨action, first⟩
    refine ⟨action, ?_⟩
    rintro ⟨j, before, also⟩
    exact first j before also
  · rintro ⟨action, first⟩
    exact ⟨action, fun j before also => first ⟨j, before, also⟩⟩

theorem guardsAt_requirement {k : Nat} {n : RequirementNode}
    (here : items[k]? = some (.requirement n)) :
    guardsAt items (k + 1) = guardsAt items k ++ [n] := by
  simp [guardsAt, here]

theorem guardsAt_other {k : Nat} (other : (kinds items)[k]? ≠ some .requirement) :
    guardsAt items (k + 1) = [] := by
  unfold guardsAt
  split
  · rename_i n here
    exact absurd (kinds_of_item here) other
  · rfl

theorem guardsAt_inRun {k : Nat} (run : inRun items k = true) : guardsAt items k = [] := by
  obtain ⟨j, rfl, action⟩ := inRun_iff.mp run
  apply guardsAt_other
  rw [action]
  simp

theorem guardsAt_inOrder (k : Nat) :
    ∃ js, InOrder (fun j => j < k ∧ ∀ i, j ≤ i → i < k → (kinds items)[i]? = some .requirement) js ∧
      guardsAt items k = js.map (requirementAt items) := by
  induction k with
  | zero => exact ⟨[], InOrder.nil fun j h => Nat.not_lt_zero j h.1, rfl⟩
  | succ k ih =>
    by_cases here : (kinds items)[k]? = some .requirement
    · obtain ⟨js, order, guards⟩ := ih
      refine ⟨js ++ [k], ⟨?_, ?_⟩, ?_⟩
      · refine List.pairwise_append.mpr ⟨order.ascending, List.pairwise_singleton _ _, ?_⟩
        intro j hj i hi
        rw [List.mem_singleton.mp hi]
        exact ((order.mem j).mp hj).1
      · intro j
        rw [List.mem_append, List.mem_singleton, order.mem]
        constructor
        · rintro (⟨lt, all⟩ | rfl)
          · refine ⟨Nat.lt_succ_of_lt lt, fun i lo hi => ?_⟩
            rcases Nat.lt_or_eq_of_le (Nat.le_of_lt_succ hi) with less | rfl
            · exact all i lo less
            · exact here
          · refine ⟨Nat.lt_succ_self j, fun i lo hi => ?_⟩
            rwa [Nat.le_antisymm (Nat.le_of_lt_succ hi) lo]
        · rintro ⟨lt, all⟩
          rcases Nat.lt_or_eq_of_le (Nat.le_of_lt_succ lt) with less | rfl
          · exact Or.inl ⟨less, fun i lo hi => all i lo (Nat.lt_succ_of_lt hi)⟩
          · exact Or.inr rfl
      · rw [guardsAt_requirement (requirement_of_kind here), guards, List.map_append, List.map_singleton]
    · refine ⟨[], InOrder.nil fun j h => ?_, guardsAt_other here⟩
      exact here (h.2 k (Nat.le_of_lt_succ h.1) (Nat.lt_succ_self k))

theorem pieces_inOrder (k : Nat) :
    ∃ ks, InOrder (fun j => k ≤ j ∧ Start items j) ks ∧
      Piece.ofItems (inRun items k) (guardsAt items k) (items.drop k) =
        ks.map (pieceAt items) := by
  generalize left : items.drop k = rest
  induction rest generalizing k with
  | nil => exact ⟨[], InOrder.nil fun j => not_start_beyond left, rfl⟩
  | cons i rest ih =>
    obtain ⟨here, behind⟩ := front left
    obtain ⟨ks, order, pieces⟩ := ih (k + 1) behind
    have kind := kinds_of_item here
    rw [inRun_succ here] at pieces
    cases i with
    | requirement n =>
      rw [guardsAt_requirement here] at pieces
      refine ⟨ks, order.skip ?_, pieces⟩
      rintro (head | trigger)
      · rw [head.action] at kind
        cases kind
      · rw [trigger] at kind
        cases kind
    | trigger n =>
      rw [guardsAt_other (by rw [kind]; simp [Item.kind])] at pieces
      refine ⟨k :: ks, order.cons (Or.inr kind), ?_⟩
      have piece : pieceAt items k = .trigger { n with guards := guardsAt items k } := by
        simp [pieceAt, here]
      rw [List.map_cons, ← pieces, piece]
      rfl
    | action s =>
      rw [guardsAt_other (by rw [kind]; simp [Item.kind])] at pieces
      cases run : inRun items k with
      | true =>
        refine ⟨ks, order.skip ?_, ?_⟩
        · rintro (head | trigger)
          · rw [(head_iff.mp head).2] at run
            cases run
          · rw [trigger] at kind
            cases kind
        · rw [guardsAt_inRun run]
          exact pieces
      | false =>
        refine ⟨k :: ks, order.cons (Or.inl (head_iff.mpr ⟨kind, run⟩)), ?_⟩
        have piece : pieceAt items k = .run (s.head (guardsAt items k) (rest.takeWhile Item.isAction)) := by
          simp [pieceAt, here, nodeAt, run, stepAt, Item.step?, behind]
        rw [List.map_cons, ← pieces, piece]
        rfl

theorem actions_inOrder (k : Nat) :
    ∃ ks, InOrder (fun j => k ≤ j ∧ ∀ i, k ≤ i → i ≤ j → (kinds items)[i]? = some .action) ks ∧
      ((items.drop k).takeWhile Item.isAction).filterMap Item.step? = ks.map (stepAt items) := by
  generalize left : items.drop k = rest
  induction rest generalizing k with
  | nil =>
    refine ⟨[], InOrder.nil ?_, rfl⟩
    rintro j ⟨later, all⟩
    have action := all j later (Nat.le_refl j)
    rw [beyond left later] at action
    cases action
  | cons i rest ih =>
    obtain ⟨here, behind⟩ := front left
    have kind := kinds_of_item here
    rw [List.takeWhile_cons]
    cases action : i.isAction with
    | false =>
      refine ⟨[], InOrder.nil ?_, rfl⟩
      rintro j ⟨later, all⟩
      have first := all k (Nat.le_refl k) later
      rw [kind, Option.some.injEq, ← Item.isAction_iff, action] at first
      cases first
    | true =>
      rw [(Item.isAction_iff i).mp action] at kind
      obtain ⟨ks, order, steps⟩ := ih (k + 1) behind
      refine ⟨k :: ks, InOrder.congr (InOrder.cons (p := fun j =>
        ∀ i, k ≤ i → i ≤ j → (kinds items)[i]? = some .action) (order.congr fun j => ?_) ?_)
        fun j => Iff.rfl, ?_⟩
      · constructor
        · rintro ⟨later, all⟩
          refine ⟨later, fun i lo hi => ?_⟩
          rcases Nat.lt_or_eq_of_le lo with lt | rfl
          · exact all i lt hi
          · exact kind
        · rintro ⟨later, all⟩
          exact ⟨later, fun i lo hi => all i (by omega) hi⟩
      · intro i lo hi
        rwa [Nat.le_antisymm hi lo]
      · have step : i.step? = some (stepAt items k) := by
          rw [step_of_action kind, Option.some.injEq] at here
          rw [← here]
          rfl
        simp [step, steps]

theorem triggers_inOrder (k : Nat) :
    ∃ us, InOrder (fun u => k ≤ u ∧ (kinds items)[u]? = some .trigger) us ∧
      Piece.triggers (Piece.ofItems (inRun items k) (guardsAt items k) (items.drop k)) =
        us.map fun u => .trigger (triggerAt items u) := by
  generalize left : items.drop k = rest
  induction rest generalizing k with
  | nil =>
    refine ⟨[], InOrder.nil ?_, rfl⟩
    rintro u ⟨later, trigger⟩
    rw [beyond left later] at trigger
    cases trigger
  | cons i rest ih =>
    obtain ⟨here, behind⟩ := front left
    obtain ⟨us, order, triggers⟩ := ih (k + 1) behind
    have kind := kinds_of_item here
    rw [inRun_succ here] at triggers
    cases i with
    | requirement n =>
      rw [guardsAt_requirement here] at triggers
      refine ⟨us, order.skip ?_, triggers⟩
      rw [kind]
      simp [Item.kind]
    | trigger n =>
      rw [guardsAt_other (by rw [kind]; simp [Item.kind])] at triggers
      refine ⟨k :: us, order.cons kind, ?_⟩
      have node : triggerAt items k =
          { n with
            guards := guardsAt items k
            actions := Piece.actionsAfter (Piece.ofItems false [] rest) } := by
        simp [triggerAt, here, behind]
      rw [List.map_cons, ← triggers, node]
      rfl
    | action s =>
      rw [guardsAt_other (by rw [kind]; simp [Item.kind])] at triggers
      refine ⟨us, order.skip (by rw [kind]; simp [Item.kind]), ?_⟩
      cases run : inRun items k with
      | true =>
        rw [guardsAt_inRun run]
        exact triggers
      | false => exact triggers

theorem isRun_pieceAt {k : Nat} (start : Start items k) :
    (pieceAt items k).isRun = true ↔ Head (kinds items) k := by
  rcases start with head | trigger
  · simp [pieceAt, step_of_action head.action, Piece.isRun, Piece.run?, head]
  · obtain ⟨n, here⟩ := trigger_of_kind trigger
    simp [pieceAt, here, Piece.isRun, Piece.run?, Head, trigger]

theorem isTrigger_pieceAt {k : Nat} (start : Start items k) :
    (pieceAt items k).isTrigger = true ↔ (kinds items)[k]? = some .trigger := by
  rw [Piece.isTrigger, Bool.not_eq_true', ← Bool.not_eq_true, isRun_pieceAt start]
  rcases start with head | trigger
  · simp [head, head.action]
  · simp [Head, trigger]

theorem runs_of_heads {hs : List Nat} (heads : ∀ h ∈ hs, Head (kinds items) h) :
    (hs.map (pieceAt items)).filterMap Piece.run? = hs.map (nodeAt items) := by
  induction hs with
  | nil => rfl
  | cons h rest ih =>
    have run : (pieceAt items h).run? = some (nodeAt items h) := by
      simp [pieceAt, step_of_action (heads h List.mem_cons_self).action, Piece.run?]
    rw [List.map_cons, List.filterMap_cons, run, List.map_cons,
      ih fun k hk => heads k (List.mem_cons_of_mem h hk)]

theorem roots_inOrder :
    ∃ hs, InOrder (fun h => Head (kinds items) h ∧ ∀ u < h, (kinds items)[u]? ≠ some .trigger) hs ∧
      ((Piece.ofItems false [] items).takeWhile Piece.isRun).filterMap Piece.run? =
        hs.map (nodeAt items) := by
  obtain ⟨ks, order, pieces⟩ := @pieces_inOrder items 0
  have taken := order.takeWhile (Piece.isRun ∘ pieceAt items)
  have roots : InOrder (fun h => Head (kinds items) h ∧
      ∀ u < h, (kinds items)[u]? ≠ some .trigger) (ks.takeWhile (Piece.isRun ∘ pieceAt items)) := by
    apply taken.congr
    intro h
    constructor
    · rintro ⟨⟨_, start⟩, all⟩
      refine ⟨(isRun_pieceAt start).mp (all h (Nat.le_refl h) ⟨Nat.zero_le h, start⟩), ?_⟩
      intro u before trigger
      have head := (isRun_pieceAt (Or.inr trigger)).mp
        (all u (Nat.le_of_lt before) ⟨Nat.zero_le u, Or.inr trigger⟩)
      rw [head.action] at trigger
      cases trigger
    · rintro ⟨head, none⟩
      refine ⟨⟨Nat.zero_le h, Or.inl head⟩, fun j le start => (isRun_pieceAt start.2).mpr ?_⟩
      rcases start.2 with head' | trigger
      · exact head'
      · rcases Nat.lt_or_eq_of_le le with lt | rfl
        · exact absurd trigger (none j lt)
        · exact head
  refine ⟨_, roots, ?_⟩
  rw [← runs_of_heads fun h hh => ((roots.mem h).mp hh).1, ← List.takeWhile_map]
  exact congrArg (fun ps => (ps.takeWhile Piece.isRun).filterMap Piece.run?) pieces

/-- The triggers right behind a trigger are passed over, and then the runs up to the next one are
taken: these are the heads in whose group the trigger is. -/
theorem group_iff {u h : Nat} (trigger : (kinds items)[u]? = some .trigger) :
    (Head (kinds items) h ∧ Group (kinds items) u h) ↔
      ((u + 1 ≤ h ∧ Start items h) ∧
          ∃ j ≤ h, (u + 1 ≤ j ∧ Start items j) ∧ ¬ (pieceAt items j).isTrigger) ∧
        ∀ j ≤ h, ((u + 1 ≤ j ∧ Start items j) ∧
            ∃ i ≤ j, (u + 1 ≤ i ∧ Start items i) ∧ ¬ (pieceAt items i).isTrigger) →
          (pieceAt items j).isRun := by
  constructor
  · rintro ⟨head, group⟩
    have before := group.before
    have still : ¬ (pieceAt items h).isTrigger := by
      rw [isTrigger_pieceAt (Or.inl head), head.action]
      simp
    refine ⟨⟨⟨before, Or.inl head⟩, h, Nat.le_refl h, ⟨before, Or.inl head⟩, still⟩, ?_⟩
    rintro j le ⟨⟨after, start⟩, i, le', ⟨after', start'⟩, other⟩
    rw [isRun_pieceAt start]
    rcases start with head' | trigger'
    · exact head'
    · obtain ⟨_, l, last, _, none⟩ := group
      have lt : j < h := by
        refine Nat.lt_of_le_of_ne le ?_
        rintro rfl
        rw [head.action] at trigger'
        cases trigger'
      have le'' : j ≤ l := by
        rcases Nat.lt_or_ge l j with less | ge
        · exact absurd trigger' (last.2.2 j less lt)
        · exact ge
      rw [isTrigger_pieceAt start'] at other
      rcases start' with head'' | trigger''
      · have distinct : i ≠ j := by
          rintro rfl
          rw [head''.action] at trigger'
          cases trigger'
        exact absurd head''.action (none i after' (by omega))
      · exact absurd trigger'' other
  · rintro ⟨⟨⟨after, start⟩, passed⟩, all⟩
    have head := (isRun_pieceAt start).mp (all h (Nat.le_refl h) ⟨⟨after, start⟩, passed⟩)
    obtain ⟨l, last, le⟩ := lastTrigger_of_trigger after trigger
    refine ⟨head, trigger, l, last, le, ?_⟩
    -- an action in between would be a run after which the trigger `l` had to be a run too
    intro a lo hi action
    obtain ⟨g, first, le', run⟩ := run_of_action action
    have inside : u < g := by
      rcases Nat.lt_or_ge u g with lt | ge
      · exact lt
      · have action' := run u ge (Nat.le_of_lt lo)
        rw [trigger] at action'
        cases action'
    have other : ¬ (pieceAt items g).isTrigger := by
      rw [isTrigger_pieceAt (Or.inl first), first.action]
      simp
    have run' := all l (Nat.le_of_lt last.1)
      ⟨⟨by omega, Or.inr last.2.1⟩, g, by omega, ⟨inside, Or.inl first⟩, other⟩
    have head' := (isRun_pieceAt (Or.inr last.2.1)).mp run'
    have kind := last.2.1
    rw [head'.action] at kind
    cases kind

theorem actions_of_trigger {u : Nat} (trigger : (kinds items)[u]? = some .trigger) :
    ∃ hs, InOrder (fun h => Head (kinds items) h ∧ Group (kinds items) u h) hs ∧
      (triggerAt items u).actions = hs.map (nodeAt items) := by
  obtain ⟨n, here⟩ := trigger_of_kind trigger
  obtain ⟨ks, order, pieces⟩ := @pieces_inOrder items (u + 1)
  rw [inRun_succ here, guardsAt_other (by rw [trigger]; simp)] at pieces
  have kept := (order.dropWhile (Piece.isTrigger ∘ pieceAt items)).takeWhile
    (Piece.isRun ∘ pieceAt items)
  have grouped := kept.congr fun h => (group_iff trigger).symm
  refine ⟨_, grouped, ?_⟩
  rw [← runs_of_heads fun h hh => ((grouped.mem h).mp hh).1, ← List.takeWhile_map,
    ← List.dropWhile_map, ← pieces]
  simp only [triggerAt, here]
  rfl

end Layout

end Cuescript
