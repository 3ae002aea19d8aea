import Cuescript.Options.Bind

/-!
What every value that is written keeps true of a config. An application writes through the options
of the schema and through nothing else. Main statement: what holds of the config before it and is
kept by each option of the schema holds of the config after it.
-/
namespace Cuescript.Options

variable {γ : Type} {P : γ → Prop}

def Write.Keeps (write : Write γ) (P : γ → Prop) : Prop :=
  ∀ config text, P config → P (write config text).1

theorem Write.of_keeps {α : Type} {read : String → Reading α} {put : γ → α → γ}
    (kept : ∀ config text a, read text = .ok a → P config → P (put config a)) :
    (Write.of read put).Keeps P := by
  intro config text here
  unfold Write.of
  split
  · exact kept config text _ ‹_› here
  · exact here

namespace Schema

variable {s : Schema γ} {slots : List (Decl γ)}

def Keeps (s : Schema γ) (P : γ → Prop) : Prop := ∀ d ∈ s.decls, d.write.Keeps P

theorem keeps_empty : (empty : Schema γ).Keeps P := nofun

theorem Keeps.option (keeps : s.Keeps P) {key : String} {write : Write γ}
    (kept : write.Keeps P) : (s.option key write).Keeps P := by
  intro d member
  rcases List.mem_append.mp member with old | new
  · exact keeps d old
  · cases List.mem_singleton.mp new
    exact kept

/-- What is told of an option has no bearing on how it is written. -/
theorem Keeps.modifyLast (keeps : s.Keeps P) {f : Decl γ → Decl γ}
    (same : ∀ d, (f d).write = d.write) : (s.modifyLast f).Keeps P := by
  unfold Schema.modifyLast
  split
  · rename_i last is
    intro d member
    rcases List.mem_append.mp member with old | new
    · exact keeps d (List.dropLast_subset _ old)
    · cases List.mem_singleton.mp new
      rw [same]
      exact keeps last (List.mem_of_getLast? is)
  · exact keeps

theorem Keeps.describe (keeps : s.Keeps P) (text : String) : (s.describe text).Keeps P :=
  keeps.modifyLast fun _ => rfl

theorem mem_of_nextPosition {value : String} {dest : Destination γ}
    (goes : nextPosition slots value = .ok dest) : dest.decl ∈ slots := by
  cases slots with
  | nil => cases goes
  | cons d rest =>
    cases goes
    exact List.mem_cons_self

theorem mem_of_destination {t : Token} {dest : Destination γ}
    (goes : s.destination slots t = .ok dest) (inside : slots ⊆ s.decls) :
    dest.decl ∈ s.decls := by
  unfold destination at goes
  split at goes
  · exact inside (mem_of_nextPosition goes)
  · split at goes
    · rename_i found
      cases goes
      exact List.mem_of_find?_eq_some found
    · split at goes
      · exact inside (mem_of_nextPosition goes)
      · cases goes

theorem applyTokens_keeps (keeps : s.Keeps P) {seen : List String} {config : γ} {ts : List Token}
    (inside : slots ⊆ s.decls) (start : P config) :
    P (s.applyTokens slots seen config ts).config := by
  induction ts generalizing slots seen config with
  | nil => exact start
  | cons t rest ih =>
    unfold applyTokens
    split
    · exact start
    · rename_i dest goes
      have written := keeps _ (mem_of_destination goes inside) config dest.value start
      split
      · rename_i is
        rwa [is] at written
      · rename_i is
        rw [is] at written
        refine ih ?_ written
        split
        · exact fun d member => inside (List.mem_of_mem_tail member)
        · exact inside

theorem positional_subset (s : Schema γ) : s.positional ⊆ s.decls := by
  intro d member
  rw [positional, List.mem_mergeSort] at member
  exact (List.mem_filter.mp member).1

theorem bind_keeps (keeps : s.Keeps P) {initial config : γ} {text : String} (start : P initial)
    (bound : s.bind initial text = .ok config) : P config := by
  have applied : P (s.apply initial text).config := by
    unfold apply
    split
    · exact start
    · split
      · exact start
      · exact applyTokens_keeps keeps s.positional_subset start
  unfold bind at bound
  dsimp only at bound
  split at bound
  · cases bound
  · cases bound
    exact applied

end Schema

end Cuescript.Options
