import Cuescript.Proofs.Execution.Lifecycle

/-!
What a policy promises of every run. A node that is executed once completes once; one with a
cooldown is admitted only when the cooldown is over; and while an action is put off, its node is
not admitted for the same target. The last needs a policy that restricts something: a node without
one is not tracked, and may be put off any number of times.
-/
namespace Cuescript

variable {ν : Type}

/-- Whether a node counts as executed by this: its body did not fail, or it fired. -/
def Deed.completes : Deed → Bool
  | .ran o => !o.isFailure
  | .fired => true
  | _ => false

def lastTime (es : List Entry) : Option Instant :=
  ((es.filter (·.deed.completes)).getLast?).map (·.time)

def Once (es : List Entry) : Prop := (es.filter (·.deed.completes)).length ≤ 1

/-- Every admission comes at least the cooldown after the last execution before it. -/
def Spaced (cooldown : Duration) (es : List Entry) : Prop :=
  ∀ i e, es[i]? = some e → e.deed = .admitted →
    ∀ last, lastTime (es.take i) = some last → last.after cooldown ≤ e.time

/-- What is put off has just been admitted. What is done next is to take up that task, and then to
run the body; so nothing else is admitted in between. -/
def Alone (es : List Entry) : Prop :=
  ∀ i d task, es[i]? = some d → d.deed = .deferred task →
    (∃ j a, i = j + 1 ∧ es[j]? = some a ∧ a.deed = .admitted) ∧
      (∀ r, es[i + 1]? = some r → r.deed = .resumed task) ∧
      ∀ b, es[i + 2]? = some b → ∃ o, b.deed = .ran o

structure Promised (q : Policy) (p : Pair) (w : World ν) : Prop where
  once : q.executeOnce = true → Once (w.attempts p)
  spaced : q.cooldown.isZero = false → Spaced q.cooldown (w.attempts p)
  alone : q.isActive = true → Alone (w.attempts p)
  waits : q.isActive = true → (w.waiting p).length ≤ 1 ∧
    ∀ task, task ∈ w.waiting p ↔
      ∃ d, (w.attempts p).getLast? = some d ∧ d.deed = .deferred task

theorem getElem?_concat_iff {α : Type} {es : List α} {e d : α} {i : Nat} :
    (es ++ [e])[i]? = some d ↔ es[i]? = some d ∨ (i = es.length ∧ e = d) := by
  rcases Nat.lt_trichotomy i es.length with inside | rfl | outside
  · simp [List.getElem?_append_left inside, Nat.ne_of_lt inside]
  · simp
  · simp [List.getElem?_eq_none (show (es ++ [e]).length ≤ i by simp; omega),
      List.getElem?_eq_none (Nat.le_of_lt outside), Nat.ne_of_gt outside]

theorem getLast?_of_getElem? {α : Type} {es : List α} {d : α} {i : Nat}
    (found : es[i]? = some d) (last : i + 1 = es.length) : es.getLast? = some d := by
  rw [List.getLast?_eq_getElem?, ← last]
  exact found

theorem lastTime_concat (es : List Entry) (e : Entry) :
    lastTime (es ++ [e]) = if e.deed.completes then some e.time else lastTime es := by
  rw [lastTime, List.filter_append]
  cases is : e.deed.completes <;> simp [is, lastTime]

theorem Once.concat {es : List Entry} {e : Entry} (once : Once es)
    (free : e.deed.completes = true → lastTime es = none) : Once (es ++ [e]) := by
  simp only [Once, List.filter_append, List.length_append] at once ⊢
  cases is : e.deed.completes with
  | false => simpa [is] using once
  | true =>
    have none : es.filter (·.deed.completes) = [] := by
      simpa only [lastTime, Option.map_eq_none_iff, List.getLast?_eq_none_iff] using free is
    simp [none, is]

theorem Spaced.concat {cooldown : Duration} {es : List Entry} {e : Entry}
    (spaced : Spaced cooldown es)
    (free : e.deed = .admitted → ∀ last, lastTime es = some last → last.after cooldown ≤ e.time) :
    Spaced cooldown (es ++ [e]) := by
  intro i d found is last before
  rcases getElem?_concat_iff.mp found with found | ⟨rfl, rfl⟩
  · have inside := (List.getElem?_eq_some_iff.mp found).1
    rw [List.take_append_of_le_length (Nat.le_of_lt inside)] at before
    exact spaced i d found is last before
  · rw [List.take_left] at before
    exact free is last before

namespace Life

variable {q : Policy} {es : List Entry} {last : Option Instant} {phase : Phase}

theorem last_eq (life : Life q es last phase) : last = lastTime es := by
  induction life with
  | blank => rfl
  | released _ ih => exact ih
  | admitted _ e is _ ih => rw [lastTime_concat, is]; exact ih
  | deferred _ e task is ih => rw [lastTime_concat, is]; exact ih
  | resumed _ e is ih => rw [lastTime_concat, is]; exact ih
  | fired _ e is ih => rw [lastTime_concat, is]; rfl
  | ran _ may e o is ih =>
    rw [lastTime_concat, is, Deed.completes, ← ih]
    cases o.isFailure <;> rfl

theorem last_of_busy (life : Life q es last phase) (once : q.executeOnce = true)
    (busy : phase.isBusy = true) : last = none := by
  induction life with
  | blank => rfl
  | admitted _ e is allows => exact Store.denial?_executeOnce once allows
  | deferred _ e task is ih => exact ih rfl
  | resumed _ e is ih => exact ih rfl
  | released | fired | ran => cases busy

theorem once (life : Life q es last phase) (once : q.executeOnce = true) : Once es := by
  induction life with
  | blank => exact Nat.zero_le 1
  | released _ ih => exact ih
  | admitted _ e is _ ih => exact ih.concat (by simp [is, Deed.completes])
  | deferred _ e task is ih => exact ih.concat (by simp [is, Deed.completes])
  | resumed _ e is ih => exact ih.concat (by simp [is, Deed.completes])
  | fired life e is ih => exact ih.concat fun _ => life.last_eq ▸ life.last_of_busy once rfl
  | @ran es last phase life may e o is ih =>
    refine ih.concat fun _ => life.last_eq ▸ life.last_of_busy once ?_
    cases phase with
    | granted | resumed => rfl
    | idle | waiting => cases may

theorem spaced (life : Life q es last phase) (tracked : q.cooldown.isZero = false) :
    Spaced q.cooldown es := by
  induction life with
  | blank => exact fun i e found => nomatch found
  | released _ ih => exact ih
  | deferred _ e task is ih => exact ih.concat (by simp [is])
  | resumed _ e is ih => exact ih.concat (by simp [is])
  | fired _ e is ih => exact ih.concat (by simp [is])
  | ran _ _ e o is ih => exact ih.concat (by simp [is])
  | @admitted es last life e is allows ih =>
    refine ih.concat fun _ time known => ?_
    rw [← life.last_eq] at known
    subst known
    exact Instant.after_le (Store.denial?_cooldown rfl allows) tracked

theorem getLast?_granted (life : Life q es last .granted) :
    ∃ a, es.getLast? = some a ∧ a.deed = .admitted := by
  cases life with
  | admitted _ e is => exact ⟨e, by simp, is⟩

theorem getLast?_waiting (life : Life q es last phase) (task : FutureId) :
    (∃ d, es.getLast? = some d ∧ d.deed = .deferred task) ↔ phase = .waiting task := by
  cases life with
  | blank => simp
  | released life =>
    obtain ⟨a, found, is⟩ := life.getLast?_granted
    simp [found, is]
  | admitted _ e is => simp [is]
  | deferred _ e task' is => simp [is]
  | resumed _ e is => simp [is]
  | ran _ _ e o is => simp [is]
  | fired _ e is => simp [is]

theorem resumed_of_getLast? (life : Life q es last phase) {r : Entry} {task : FutureId}
    (found : es.getLast? = some r) (is : r.deed = .resumed task) : phase = .resumed := by
  cases life with
  | resumed => rfl
  | blank => cases found
  | released life =>
    obtain ⟨a, found', is'⟩ := life.getLast?_granted
    simp_all
  | admitted | deferred | ran | fired => simp_all

/-- A deed that goes on with what was done last leaves alone what was put off. -/
theorem alone_concat {e : Entry} (life : Life q es last phase) (alone : Alone es)
    (admission : ∀ task, e.deed = .deferred task → phase = .granted)
    (resumption : ∀ task, phase = .waiting task → e.deed = .resumed task)
    (running : phase = .resumed → ∃ o, e.deed = .ran o) : Alone (es ++ [e]) := by
  intro i d task found is
  rcases getElem?_concat_iff.mp found with found | ⟨rfl, rfl⟩
  -- An old deferral: the new deed matters only if it comes one or two places behind it.
  · obtain ⟨⟨j, a, rfl, before, admitted⟩, next, body⟩ := alone i d task found is
    refine ⟨⟨j, a, rfl, getElem?_concat_iff.mpr (.inl before), admitted⟩, ?_, ?_⟩
    · intro r found'
      rcases getElem?_concat_iff.mp found' with found' | ⟨end_, rfl⟩
      · exact next r found'
      · have waits := (life.getLast?_waiting task).mp ⟨d, getLast?_of_getElem? found end_, is⟩
        exact resumption task waits
    · intro b found'
      rcases getElem?_concat_iff.mp found' with found' | ⟨end_, rfl⟩
      · exact body b found'
      · obtain ⟨r, taken⟩ : ∃ r, es[j + 1 + 1]? = some r :=
          ⟨_, List.getElem?_eq_getElem (by omega)⟩
        exact running (life.resumed_of_getLast? (getLast?_of_getElem? taken end_) (next r taken))
  -- The new deed is a deferral: nothing is behind it, and its admission is right before it.
  · obtain rfl := admission task is
    obtain ⟨a, found', admitted⟩ := life.getLast?_granted
    have some := List.length_pos_iff.mpr (List.ne_nil_of_mem (List.mem_of_getLast? found'))
    rw [List.getLast?_eq_getElem?] at found'
    refine ⟨⟨es.length - 1, a, by omega, ?_, admitted⟩, ?_, ?_⟩
    · exact getElem?_concat_iff.mpr (.inl found')
    · intro r beyond
      simp at beyond
    · intro b beyond
      simp at beyond

theorem alone (life : Life q es last phase) : Alone es := by
  induction life with
  | blank => exact fun i d task found => nomatch found
  | released _ ih => exact ih
  | admitted life e is _ ih => exact life.alone_concat ih (by simp [is]) nofun nofun
  | deferred life e task is ih => exact life.alone_concat ih (fun _ _ => rfl) nofun nofun
  | @resumed es last task life e is ih =>
    refine life.alone_concat ih (by simp [is]) ?_ nofun
    rintro _ ⟨⟩
    exact is
  | fired life e is ih => exact life.alone_concat ih (by simp [is]) nofun nofun
  | @ran es last phase life may e o is ih =>
    refine life.alone_concat ih (by simp [is]) ?_ fun _ => ⟨o, is⟩
    rintro task rfl
    cases may

end Life

namespace World

/-- In every run that forgets nothing, for every node and every target, the policy of the node keeps
its promises. -/
theorem play_promised (x : NodeId) (target : String) (q : Policy) (ms : List Move)
    (ok : ∀ m ∈ ms, m.Obeys (.only x q) ∧ m.forgets = false) (clock : Instant)
    (deferring : Bool) : Promised q (x, target) ((start clock deferring).play ms : World ν) := by
  have alive : q.isActive = true → ∃ last phase,
      Alive q (x, target) last phase .nothing ((start clock deferring).play ms : World ν) :=
    fun active => play_alive active ok clock deferring
  refine ⟨fun once => ?_, fun tracked => ?_, fun active => ?_, fun active => ?_⟩
  · obtain ⟨last, phase, alive⟩ := alive (by simp [Policy.isActive, once])
    exact alive.life.once once
  · obtain ⟨last, phase, alive⟩ := alive (by simp [Policy.isActive, tracked])
    exact alive.life.spaced tracked
  · obtain ⟨last, phase, alive⟩ := alive active
    exact alive.life.alone
  · obtain ⟨last, phase, life, _, fits⟩ := alive active
    have ends := life.getLast?_waiting
    obtain ⟨rfl, none⟩ | ⟨task, rfl, one⟩ := fits.free (Hold.nothing_free _)
    · refine ⟨none ▸ Nat.zero_le 1, fun task => ?_⟩
      rw [ends, none]
      simp
    · refine ⟨one ▸ Nat.le_refl 1, fun task' => ?_⟩
      rw [ends, one]
      simp [eq_comm]

end World

def pausing (q : Policy) : ActionNode :=
  ⟨⟨⟨0⟩, "pause", ⟨q.cooldown, .ofSeconds 1, q.executeOnce⟩,
    ⟨.player, fun _ _ => ⟨[], .ended .passed⟩⟩, []⟩, []⟩

def twice (q : Policy) : List Move :=
  [.act (pausing q) ⟨"steve", .player "steve" 20⟩ .empty,
    .act (pausing q) ⟨"steve", .player "steve" 20⟩ .empty, .run 0]

def doneTwice (q : Policy) : List Entry :=
  ((World.start ⟨0⟩ true).play (twice q) : World Unit).attempts (⟨0⟩, "steve")

theorem twice_obeys (q : Policy) :
    ∀ m ∈ twice q, m.Obeys (.only ⟨0⟩ q) ∧ m.forgets = false := by
  simp [twice, Move.Obeys, Move.forgets, ActionNode.Obeys, ActionNode.mem_members, pausing,
    ActionNode.membersAll, Allowance.only, ActionConfig.policy]

/-- With a cooldown, the second attempt is not admitted while the first one waits. -/
theorem World.play_promised_twice :
    (∀ m ∈ twice ⟨.ofSeconds 60, false⟩,
        m.Obeys (.only ⟨0⟩ ⟨.ofSeconds 60, false⟩) ∧ m.forgets = false) ∧
      (doneTwice ⟨.ofSeconds 60, false⟩).map (·.deed) =
        [.admitted, .deferred ⟨0⟩, .resumed ⟨0⟩, .ran .passed] ∧
      Promised ⟨.ofSeconds 60, false⟩ (⟨0⟩, "steve")
        ((start ⟨0⟩ true).play (twice ⟨.ofSeconds 60, false⟩) : World Unit) :=
  ⟨twice_obeys _, by decide, play_promised ⟨0⟩ "steve" _ _ (twice_obeys _) ⟨0⟩ true⟩

/-- Without a cooldown it is: a policy that restricts nothing is not tracked. -/
theorem World.not_alone_twice :
    (∀ m ∈ twice ⟨.zero, false⟩, m.Obeys (.only ⟨0⟩ ⟨.zero, false⟩) ∧ m.forgets = false) ∧
      (doneTwice ⟨.zero, false⟩).map (·.deed) =
        [.admitted, .deferred ⟨0⟩, .admitted, .deferred ⟨1⟩, .resumed ⟨0⟩, .ran .passed] ∧
      ¬ Alone (doneTwice ⟨.zero, false⟩) := by
  refine ⟨twice_obeys _, by decide, fun alone => ?_⟩
  have next := (alone 1 ⟨⟨0⟩, "steve", ⟨0⟩, .deferred ⟨0⟩, []⟩ ⟨0⟩ (by decide) rfl).2.1
  cases next ⟨⟨0⟩, "steve", ⟨0⟩, .admitted, []⟩ (by decide)

end Cuescript
