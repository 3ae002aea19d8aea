import Cuescript.Proofs.Options.Applications

/-!
Configs that are made of slots, one for each option. If an option writes to its own slot only and
looks at no other, what a slot holds after values have been written comes from the values of its
option alone. Main statement: values are written in any order to the same effect, as long as those
of one option stay in order.
-/
namespace Cuescript.Options

variable {γ : Type} {s : Schema γ}

/-- A config has a slot for each number and is told by what they hold. The option of a number writes
to no slot but its own; slots without an option hold the rest of the config. -/
structure Slots (s : Schema γ) where
  Content : Nat → Type
  content : (n : Nat) → γ → Content n
  ext : ∀ config config' : γ, (∀ n, content n config = content n config') → config = config'
  elsewhere : ∀ (n : Nat) (d : Decl γ), s.decls[n]? = some d → ∀ (config : γ) (text : String),
    ∀ m ≠ n, content m (d.write config text).1 = content m config

namespace Slots

/-- No option looks at the slot of another one: its own tells whether a value is refused and what it
holds then. -/
def Private (slots : Slots s) : Prop :=
  ∀ (n : Nat) (d : Decl γ), s.decls[n]? = some d → ∀ (config config' : γ) (text : String),
    slots.content n config = slots.content n config' →
      slots.content n (d.write config text).1 = slots.content n (d.write config' text).1 ∧
        (d.write config text).2 = (d.write config' text).2

variable {slots : Slots s} {config config' : γ} {job : Assignment} {jobs jobs' : List Assignment}
  {n : Nat}

theorem assign_elsewhere (slots : Slots s) (done : s.assign config job = some config')
    (other : n ≠ job.option) : slots.content n config' = slots.content n config := by
  obtain ⟨d, is, written⟩ := Schema.assign_eq_some_iff.mp done
  have kept := slots.elsewhere job.option d is config job.value n other
  rwa [written] at kept

theorem Private.assign (apart : slots.Private) (done : s.assign config job = some config')
    {other : γ} (same : slots.content job.option config = slots.content job.option other) :
    ∃ other', s.assign other job = some other' ∧
      slots.content job.option config' = slots.content job.option other' := by
  obtain ⟨d, is, written⟩ := Schema.assign_eq_some_iff.mp done
  obtain ⟨holds, takes⟩ := apart job.option d is config other job.value same
  rw [written] at holds takes
  exact ⟨(d.write other job.value).1,
    Schema.assign_eq_some_iff.mpr ⟨d, is, Prod.ext rfl takes.symm⟩, holds⟩

def sent (n : Nat) (jobs : List Assignment) : List Assignment := jobs.filter (·.option = n)

theorem sent_cons_self (job : Assignment) (jobs : List Assignment) :
    sent job.option (job :: jobs) = job :: sent job.option jobs := by
  simp [sent]

theorem sent_cons_of_ne (other : n ≠ job.option) : sent n (job :: jobs) = sent n jobs := by
  simp [sent, Ne.symm other]

theorem Private.perform_sent (apart : slots.Private) (done : s.perform config jobs = some config')
    {other : γ} (same : slots.content n config = slots.content n other) :
    ∃ other', s.perform other (sent n jobs) = some other' ∧
      slots.content n config' = slots.content n other' := by
  induction jobs generalizing config other with
  | nil =>
    cases done
    exact ⟨other, rfl, same⟩
  | cons job jobs ih =>
    rw [Schema.perform_cons] at done
    obtain ⟨middle, first, rest⟩ := Option.bind_eq_some_iff.mp done
    by_cases own : n = job.option
    · subst own
      obtain ⟨middle', first', same'⟩ := apart.assign first same
      rw [sent_cons_self, Schema.perform_cons, first']
      exact ih rest same'
    · rw [sent_cons_of_ne own]
      exact ih rest ((slots.assign_elsewhere first own).trans same)

theorem Private.exists_perform (apart : slots.Private)
    (each : ∀ n, ∃ other other', slots.content n config = slots.content n other ∧
      s.perform other (sent n jobs) = some other') :
    ∃ config', s.perform config jobs = some config' := by
  induction jobs generalizing config with
  | nil => exact ⟨config, rfl⟩
  | cons job jobs ih =>
    obtain ⟨other, other', same, done⟩ := each job.option
    rw [sent_cons_self, Schema.perform_cons] at done
    obtain ⟨next, first, rest⟩ := Option.bind_eq_some_iff.mp done
    obtain ⟨middle, written, same'⟩ := apart.assign first same.symm
    rw [Schema.perform_cons, written]
    refine ih fun n => ?_
    by_cases own : n = job.option
    · subst own
      exact ⟨next, other', same'.symm, rest⟩
    · obtain ⟨other, other', same, done⟩ := each n
      rw [sent_cons_of_ne own] at done
      exact ⟨other, other', (slots.assign_elsewhere written own).trans same, done⟩

/-- Values may be written in any order in which those of one option stay in order. -/
theorem Private.perform_eq (apart : slots.Private) (same : ∀ n, sent n jobs = sent n jobs')
    (done : s.perform config jobs = some config') : s.perform config jobs' = some config' := by
  have each (n : Nat) : ∃ other, s.perform config (sent n jobs') = some other ∧
      slots.content n config' = slots.content n other := by
    rw [← same n]
    exact apart.perform_sent done rfl
  obtain ⟨config'', done'⟩ := apart.exists_perform fun n => by
    obtain ⟨other, sent, _⟩ := each n
    exact ⟨config, other, rfl, sent⟩
  have equal : config' = config'' := by
    refine slots.ext config' config'' fun n => ?_
    obtain ⟨other, sent, holds⟩ := each n
    obtain ⟨other', sent', holds'⟩ := apart.perform_sent done' (n := n) rfl
    cases Option.some.inj (sent.symm.trans sent')
    exact holds.trans holds'.symm
  rw [done', equal]

end Slots

end Cuescript.Options
