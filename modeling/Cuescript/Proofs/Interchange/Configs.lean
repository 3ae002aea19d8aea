import Cuescript.Interchange.Forms
import Cuescript.Proofs.Options.Binding
import Cuescript.Proofs.Time.Reading

/-!
Node configs written as JSON and read back. A duration is written as a number of milliseconds of 64
bits, while the sum of the parts of an option text may be longer than that. Main statement: a config
bound from option text comes back as it was exactly if its durations fit, and else with each of them
reduced modulo 2^64.
-/
namespace Cuescript

open Document

theorem Json.fields?_object (keys : List String) (members : List (String × Json)) :
    fields? (keys.map fun k => [k]) (Json.object members) =
      some (keys.map fun k => members.lookup k) := by
  change List.mapM _ _ = _
  induction keys with
  | nil => rfl
  | cons k rest ih =>
    rw [List.map_cons, List.mapM_cons, ih]
    cases is : members.lookup k <;> simp [is]

theorem Json.insertMember_last {key : String} {value : Json} {members : List (String × Json)}
    (last : ∀ k ∈ members.map Prod.fst, k < key) :
    insertMember key value members = members ++ [(key, value)] := by
  induction members with
  | nil => rfl
  | cons m rest ih =>
    obtain ⟨below, inside⟩ := List.forall_mem_cons.mp last
    have unlike : key ≠ m.1 := fun same => String.lt_irrefl _ (same ▸ below)
    rw [insertMember, if_neg (String.lt_asymm below), if_neg unlike, ih inside, List.cons_append]

theorem Json.foldl_insertMember {members : List (String × Json)} : ∀ {before},
    ((before ++ members).map Prod.fst).Pairwise (· < ·) →
      members.foldl (fun ms m => insertMember m.1 m.2 ms) before = before ++ members := by
  induction members with
  | nil => simp
  | cons m rest ih =>
    intro before sorted
    have last : ∀ k ∈ before.map Prod.fst, k < m.1 := by
      rw [List.map_append, List.pairwise_append] at sorted
      exact fun k there => sorted.2.2 k there _ List.mem_cons_self
    rw [List.append_cons] at sorted
    rw [List.foldl_cons, insertMember_last last, ih sorted, ← List.append_cons]

theorem Json.ofMembers_sorted {members : List (String × Json)}
    (sorted : (members.map Prod.fst).Pairwise (· < ·)) : ofMembers members = .object members :=
  congrArg object (foldl_insertMember sorted)

namespace Duration

/-- What is left of a duration that is written as a number of milliseconds of 64 bits. -/
def wrapped (d : Duration) : Duration := ofMillis (d.millis % Text.wordLimit)

def IsWhole (d : Duration) : Prop := ∃ n, d = ofMillis n

theorem isWhole_zero : zero.IsWhole := ⟨0, congrArg mk (Nat.zero_mul _).symm⟩

theorem ofJson?_toJson (d : Duration) : ofJson? d.toJson = some d.wrapped := by
  have inside : d.millis % Text.wordLimit < Text.wordLimit := Nat.mod_lt _ (by decide)
  generalize is : d.millis % Text.wordLimit = n at inside
  rw [toJson, wrapped, is]
  simp [ofJson?, word?, inside]

theorem wrapped_eq_iff {d : Duration} (whole : d.IsWhole) :
    d.wrapped = d ↔ d.millis < Text.wordLimit := by
  obtain ⟨n, rfl⟩ := whole
  rw [wrapped, millis_ofMillis]
  constructor
  · intro same
    have back := congrArg millis same
    rw [millis_ofMillis, millis_ofMillis] at back
    exact back ▸ Nat.mod_lt _ (by decide)
  · intro fits
    rw [Nat.mod_eq_of_lt fits]

theorem isWhole_of_readDuration {text : String} {d : Duration}
    (read : Options.readDuration text = .ok d) : d.IsWhole := by
  unfold Options.readDuration at read
  split at read
  · rename_i found
    cases read
    obtain ⟨n, -, rfl⟩ := read?_eq_some_iff.mp found
    exact ⟨n, rfl⟩
  · cases read

end Duration

namespace ActionConfig

theorem ofJson?_object {cooldown delay : Json} {d d' : Duration} (once : Bool)
    (first : Duration.ofJson? cooldown = some d) (second : Duration.ofJson? delay = some d') :
    ofJson? (.object [("cooldown", cooldown), ("delay", delay), ("execute_once", .bool once)]) =
      some ⟨d, d', once⟩ := by
  have fields := Json.fields?_object ["cooldown", "delay", "execute_once"]
    [("cooldown", cooldown), ("delay", delay), ("execute_once", .bool once)]
  rw [ofJson?]
  simp only [List.map_cons, List.map_nil] at fields
  rw [fields]
  simp [field, withDefault, List.lookup_cons, first, second, bool?]

theorem ofJson?_toJson (c : ActionConfig) :
    ofJson? c.toJson = some ⟨c.cooldown.wrapped, c.delay.wrapped, c.executeOnce⟩ := by
  have sorted : ["cooldown", "delay", "execute_once"].Pairwise (· < ·) := by decide
  rw [toJson, Json.ofMembers_sorted]
  · exact ofJson?_object _ (Duration.ofJson?_toJson _) (Duration.ofJson?_toJson _)
  · exact sorted

theorem isWhole_of_bind {text : String} {c : ActionConfig} (bound : bind text = .ok c) :
    c.cooldown.IsWhole ∧ c.delay.IsWhole := by
  have cooldown : (Options.Write.of Options.readDuration fun c d =>
      { c with cooldown := d }).Keeps fun c : ActionConfig => c.cooldown.IsWhole ∧ c.delay.IsWhole :=
    Options.Write.of_keeps fun _ _ _ read whole => ⟨Duration.isWhole_of_readDuration read, whole.2⟩
  have delay : (Options.Write.of Options.readDuration fun c d =>
      { c with delay := d }).Keeps fun c : ActionConfig => c.cooldown.IsWhole ∧ c.delay.IsWhole :=
    Options.Write.of_keeps fun _ _ _ read whole => ⟨whole.1, Duration.isWhole_of_readDuration read⟩
  have once : (Options.Write.of Options.readFlag fun c b =>
      { c with executeOnce := b }).Keeps fun c : ActionConfig =>
        c.cooldown.IsWhole ∧ c.delay.IsWhole :=
    Options.Write.of_keeps fun _ _ _ _ whole => whole
  have keeps : schema.Keeps fun c => c.cooldown.IsWhole ∧ c.delay.IsWhole := by
    unfold schema
    exact .describe (.option (.describe (.option (.describe (.option Options.Schema.keeps_empty
      cooldown) _) delay) _) once) _
  exact Options.Schema.bind_keeps keeps ⟨Duration.isWhole_zero, Duration.isWhole_zero⟩ bound

theorem restored_iff {c : ActionConfig} (whole : c.cooldown.IsWhole ∧ c.delay.IsWhole) :
    ofJson? c.toJson = some c ↔
      c.cooldown.millis < Text.wordLimit ∧ c.delay.millis < Text.wordLimit := by
  rw [ofJson?_toJson, ← Duration.wrapped_eq_iff whole.1, ← Duration.wrapped_eq_iff whole.2]
  obtain ⟨cooldown, delay, once⟩ := c
  simp

end ActionConfig

namespace TriggerConfig

theorem ofJson?_object {cooldown : Json} {d : Duration} (once : Bool)
    (first : Duration.ofJson? cooldown = some d) :
    ofJson? (.object [("cooldown", cooldown), ("execute_once", .bool once)]) = some ⟨d, once⟩ := by
  have fields := Json.fields?_object ["cooldown", "execute_once"]
    [("cooldown", cooldown), ("execute_once", .bool once)]
  rw [ofJson?]
  simp only [List.map_cons, List.map_nil] at fields
  rw [fields]
  simp [field, withDefault, List.lookup_cons, first, bool?]

theorem ofJson?_toJson (c : TriggerConfig) :
    ofJson? c.toJson = some ⟨c.cooldown.wrapped, c.executeOnce⟩ := by
  have sorted : ["cooldown", "execute_once"].Pairwise (· < ·) := by decide
  rw [toJson, Json.ofMembers_sorted]
  · exact ofJson?_object _ (Duration.ofJson?_toJson _)
  · exact sorted

theorem isWhole_of_bind {text : String} {c : TriggerConfig} (bound : bind text = .ok c) :
    c.cooldown.IsWhole := by
  have cooldown : (Options.Write.of Options.readDuration fun c d =>
      { c with cooldown := d }).Keeps fun c : TriggerConfig => c.cooldown.IsWhole :=
    Options.Write.of_keeps fun _ _ _ read _ => Duration.isWhole_of_readDuration read
  have once : (Options.Write.of Options.readFlag fun c b =>
      { c with executeOnce := b }).Keeps fun c : TriggerConfig => c.cooldown.IsWhole :=
    Options.Write.of_keeps fun _ _ _ _ whole => whole
  have keeps : schema.Keeps fun c => c.cooldown.IsWhole := by
    unfold schema
    exact .describe (.option (.describe (.option Options.Schema.keeps_empty cooldown) _) once) _
  exact Options.Schema.bind_keeps keeps Duration.isWhole_zero bound

theorem restored_iff {c : TriggerConfig} (whole : c.cooldown.IsWhole) :
    ofJson? c.toJson = some c ↔ c.cooldown.millis < Text.wordLimit := by
  rw [ofJson?_toJson, ← Duration.wrapped_eq_iff whole]
  obtain ⟨cooldown, once⟩ := c
  simp

end TriggerConfig

theorem ok_of_toOption {ε α : Type} {x : Except ε α} {a : α} (is : x.toOption = some a) :
    x = .ok a := by
  cases x with
  | error => cases is
  | ok => exact congrArg _ (Option.some.inj is)

/-- A config bound from option text is restored exactly if its durations fit into 64 bits of
milliseconds; of one that does not only the rest modulo 2^64 comes back. -/
theorem bound_restored (text : String) :
    (∀ c, ActionConfig.bind text = .ok c →
      ActionConfig.ofJson? c.toJson = some ⟨c.cooldown.wrapped, c.delay.wrapped, c.executeOnce⟩ ∧
      (ActionConfig.ofJson? c.toJson = some c ↔
        c.cooldown.millis < Text.wordLimit ∧ c.delay.millis < Text.wordLimit)) ∧
    ∀ c, TriggerConfig.bind text = .ok c →
      TriggerConfig.ofJson? c.toJson = some ⟨c.cooldown.wrapped, c.executeOnce⟩ ∧
      (TriggerConfig.ofJson? c.toJson = some c ↔ c.cooldown.millis < Text.wordLimit) :=
  ⟨fun c bound => ⟨c.ofJson?_toJson, ActionConfig.restored_iff (ActionConfig.isWhole_of_bind bound)⟩,
    fun c bound =>
      ⟨c.ofJson?_toJson, TriggerConfig.restored_iff (TriggerConfig.isWhole_of_bind bound)⟩⟩

theorem bound_restored_short :
    ∃ c, ActionConfig.bind "cooldown=1m30s, delay=5ms" = .ok c ∧
      c.cooldown = .ofMillis 90000 ∧ ActionConfig.ofJson? c.toJson = some c := by
  have bound : ActionConfig.bind "cooldown=1m30s, delay=5ms" =
      .ok ⟨.ofMillis 90000, .ofMillis 5, false⟩ := ok_of_toOption (by decide +kernel)
  have restored := ((bound_restored _).1 _ bound).2.mpr (by decide +kernel)
  exact ⟨_, bound, rfl, restored⟩

/-- Two parts that fit into 64 bits, and whose sum is 2^64 milliseconds. -/
def overlong : String := "cooldown=18446744073709551615ms1ms"

/-- A cooldown of 2^64 milliseconds can be bound, and comes back as none at all. -/
theorem overlong_lost :
    ¬ (∀ text c, ActionConfig.bind text = .ok c → ActionConfig.ofJson? c.toJson = some c) ∧
      (∃ c, ActionConfig.bind overlong = .ok c ∧ c.cooldown = .ofMillis Text.wordLimit ∧
        ActionConfig.ofJson? c.toJson = some .initial) ∧
      ∃ c, TriggerConfig.bind overlong = .ok c ∧ c.cooldown = .ofMillis Text.wordLimit ∧
        TriggerConfig.ofJson? c.toJson = some .initial := by
  have action : ActionConfig.bind overlong = .ok ⟨.ofMillis Text.wordLimit, .zero, false⟩ :=
    ok_of_toOption (by decide +kernel)
  have trigger : TriggerConfig.bind overlong = .ok ⟨.ofMillis Text.wordLimit, false⟩ :=
    ok_of_toOption (by decide +kernel)
  have lost : (Duration.ofMillis Text.wordLimit).wrapped = .zero := by decide +kernel
  have zero : Duration.zero.wrapped = .zero := by decide +kernel
  have unlike : Duration.zero ≠ .ofMillis Text.wordLimit := by decide +kernel
  generalize Duration.ofMillis Text.wordLimit = long at *
  have back := ActionConfig.ofJson?_toJson ⟨long, .zero, false⟩
  have back' := TriggerConfig.ofJson?_toJson ⟨long, false⟩
  rw [lost] at back back'
  rw [zero] at back
  refine ⟨fun claim => ?_, ⟨_, action, rfl, back⟩, _, trigger, rfl, back'⟩
  have same := back.symm.trans (claim overlong _ action)
  exact unlike (congrArg ActionConfig.cooldown (Option.some.inj same))

end Cuescript
