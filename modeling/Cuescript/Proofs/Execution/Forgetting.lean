import Cuescript.Proofs.Execution.Claims

/-!
Forgetting while claims stand. A store can be told to forget a target or everything, and must not
lose the marks of the claims that stand. Main statement: however a store was used before, all passes
and all dates that are meant are forgotten, except the date of a pair on which a claim stands; what
is not meant stays, claims go on to exclude each other, and one that is committed later is dated.
-/
namespace Cuescript

def Use.forgets : Use → String → Bool
  | .reset target, t => t = target
  | .clear, _ => true
  | _, _ => false

namespace Store

variable {s s' : Store} {meant : String → Bool}

def dated (s : Store) : List Pair :=
  (s.records.entries.filter fun e => e.2.last.isSome).map Prod.fst

theorem size_eq (s : Store) : s.size = s.dated.length := by
  simp [size, dated, Table.count, Table.values, List.filter_map, Function.comp_def]

/-- What forgetting does to a store: of the targets that are meant only records in flight stay. -/
structure Forgot (meant : String → Bool) (s s' : Store) : Prop where
  records : s'.records = s.records.keep fun e => !meant e.1.2 || e.2.inFlight
  passed : ∀ p, s'.passed.get? p = if meant p.2 then none else s.passed.get? p

theorem forgot_resetTarget (s : Store) (target : String) :
    Forgot (fun t => t = target) s (s.resetTarget target) := by
  constructor
  · simp [resetTarget]
  · intro p
    rw [resetTarget, Table.get?_keep]
    by_cases own : p.2 = target <;> cases s.passed.get? p <;> simp [own, Option.filter]

theorem forgot_clear (s : Store) : Forgot (fun _ => true) s s.clear := by
  constructor
  · simp [clear]
  · simp [clear]

namespace Forgot

theorem get?_records (forgot : Forgot meant s s') (p : Pair) :
    s'.records.get? p =
      if meant p.2 && !(s.record p).inFlight then none else s.records.get? p := by
  rw [forgot.records, Table.get?_keep, record]
  cases s.records.get? p with
  | none => simp
  | some r => cases is : meant p.2 <;> cases marked : r.inFlight <;> simp [is, marked, Option.filter]

theorem record (forgot : Forgot meant s s') (p : Pair) :
    s'.record p = if meant p.2 && !(s.record p).inFlight then ⟨none, false⟩ else s.record p := by
  rw [Store.record, forgot.get?_records]
  split <;> rfl

theorem hasPassed (forgot : Forgot meant s s') (p : Pair) :
    s'.hasPassed p = (!meant p.2 && s.hasPassed p) := by
  rw [Store.hasPassed, Table.contains, forgot.passed]
  cases meant p.2 <;> rfl

theorem dated (forgot : Forgot meant s s') :
    s'.dated = s.dated.filter fun p => !meant p.2 || (s.record p).inFlight := by
  have recorded : ∀ e ∈ s.records.entries, s.record e.1 = e.2 := by
    intro e member
    rw [Store.record, (s.records.get?_eq_some_iff e.1 e.2).mpr member, Option.getD_some]
  simp only [Store.dated, forgot.records, Table.keep, List.filter_map, List.filter_filter]
  refine congrArg (List.map Prod.fst) (List.filter_congr fun e member => ?_)
  rw [Function.comp_apply, recorded e member, Bool.and_comm]

end Forgot

end Store

inductive Dealing where
  | use (u : Use)
  | pass (p : Pair) (now : Instant)

def Dealing.ends? : Dealing → Option Nat
  | .use u => u.ends?
  | .pass .. => none

def Grant.standing? (grants : List Grant) (k : Nat) : Option (Claim × Policy) :=
  match grants[k]? with
  | some ⟨c, policy, false⟩ => some (c, policy)
  | _ => none

theorem Grant.standing?_eq_some {grants : List Grant} {k : Nat} {c : Claim} {policy : Policy} :
    standing? grants k = some (c, policy) ↔ grants[k]? = some ⟨c, policy, false⟩ := by
  rcases is : grants[k]? with _ | ⟨c', policy', _ | _⟩ <;> simp [standing?, is]

namespace Custody

variable {h : Custody}

def deal (h : Custody) : Dealing → Custody
  | .use u => h.use u
  | .pass p now => ⟨h.store.markPassed p now, h.grants⟩

def deals (h : Custody) (ds : List Dealing) : Custody := ds.foldl deal h

theorem Tidy.deal (tidy : h.Tidy) (d : Dealing) : (h.deal d).Tidy := by
  cases d with
  | use u => exact tidy.use u
  | pass p now => exact ⟨tidy.marks, tidy.tracked⟩

theorem Tidy.deals (tidy : h.Tidy) (ds : List Dealing) : (h.deals ds).Tidy := by
  induction ds generalizing h with
  | nil => exact tidy
  | cons d ds ih => exact ih (tidy.deal d)

theorem standing_of_deals {k : Nat} {c : Claim} {policy : Policy} {ds : List Dealing}
    (is : h.grants[k]? = some ⟨c, policy, false⟩) (others : ∀ d ∈ ds, d.ends? ≠ some k) :
    (h.deals ds).grants[k]? = some ⟨c, policy, false⟩ := by
  induction ds generalizing h with
  | nil => exact is
  | cons d ds ih =>
    have first : (h.deal d).grants[k]? = some ⟨c, policy, false⟩ := by
      cases d with
      | use u => exact standing_of_use is (others _ List.mem_cons_self)
      | pass p now => exact is
    exact ih first fun d member => others d (List.mem_cons_of_mem _ member)

theorem Tidy.inFlight_eq (tidy : h.Tidy) (p : Pair) :
    (h.store.record p).inFlight = !(h.standingOn p).isEmpty := by
  have exclusive := tidy.exclusive
  have marked := exclusive.marked p
  have single := exclusive.single p
  cases standing : h.standingOn p with
  | nil => simpa [standing] using marked
  | cons g rest =>
    have one : (h.standingOn p).length = 1 := by
      rw [standing, List.length_cons] at single ⊢
      omega
    simpa using marked.mpr one

theorem settle_eq (h : Custody) (k : Nat) (finish : Store → Claim → Store) :
    h.settle k finish =
      match Grant.standing? h.grants k with
      | some (c, policy) => ⟨finish h.store c, h.grants.set k ⟨c, policy, true⟩⟩
      | none => h := by
  rcases is : h.grants[k]? with _ | ⟨c, policy, _ | _⟩
  · simp only [settle, Grant.standing?, is]
  · have inside := (List.getElem?_eq_some_iff.mp is).1
    simp only [settle, Grant.standing?, is]
    exact drop_settled (List.getElem?_set_self inside)
  · simp only [settle, Grant.standing?, is]

theorem drop_eq (h : Custody) (k : Nat) : h.drop k = h.settle k Store.release := by
  rw [settle_eq]
  rcases is : h.grants[k]? with _ | ⟨c, policy, _ | _⟩ <;> simp only [drop, Grant.standing?, is]

/-- Committing a claim dates its pair, whatever has happened since it was granted. -/
theorem Tidy.lastExecution_commit (tidy : h.Tidy) {k : Nat} {c : Claim} {policy : Policy}
    (is : h.grants[k]? = some ⟨c, policy, false⟩) (active : policy.isActive = true)
    (now : Instant) : (h.use (.commit k now)).store.lastExecution c.pair = some now := by
  have tracked : c.tracked = true := (tidy.tracked _ (List.mem_of_getElem? is)).trans active
  rw [Custody.use, settle_eq, Grant.standing?_eq_some.mpr is]
  dsimp only
  rw [Store.lastExecution, Store.record_commit, if_pos ⟨tracked, rfl⟩]

structure Forgets (h : Custody) (u : Use) : Prop where
  /-- A date goes, unless a claim stands on the pair. -/
  dates : ∀ p, u.forgets p.2 = true → (h.use u).store.lastExecution p =
    if (h.standingOn p).isEmpty then none else h.store.lastExecution p
  passes : ∀ p, u.forgets p.2 = true → (h.use u).store.hasPassed p = false
  others : ∀ p, u.forgets p.2 = false →
    (h.use u).store.records.get? p = h.store.records.get? p ∧
      (h.use u).store.passed.get? p = h.store.passed.get? p
  size : (h.use u).store.size =
    (h.store.dated.filter fun p => !u.forgets p.2 || !(h.standingOn p).isEmpty).length
  exclusive : ∀ ds, Exclusive ((h.use u).deals ds)
  /-- A claim that stands through it all is dated when it is committed. -/
  commits : ∀ k g ds now, h.grants[k]? = some g → g.settled = false → g.policy.isActive = true →
    (∀ d ∈ ds, d.ends? ≠ some k) →
      (((h.use u).deals ds).use (.commit k now)).store.lastExecution g.claim.pair = some now

theorem Tidy.forgets (tidy : h.Tidy) {u : Use} (grants : (h.use u).grants = h.grants)
    (forgot : Store.Forgot u.forgets h.store (h.use u).store) : Forgets h u := by
  constructor
  · intro p own
    rw [Store.lastExecution, forgot.record, own, tidy.inFlight_eq]
    cases (h.standingOn p).isEmpty <;> rfl
  · intro p own
    rw [forgot.hasPassed, own]
    rfl
  · intro p other
    rw [forgot.get?_records, forgot.passed, other]
    exact ⟨rfl, rfl⟩
  · simp only [Store.size_eq, forgot.dated, tidy.inFlight_eq]
  · exact fun ds => ((tidy.use u).deals ds).exclusive
  · rintro k ⟨c, policy, settled⟩ ds now is pending active others
    obtain rfl : settled = false := pending
    rw [← grants] at is
    exact ((tidy.use u).deals ds).lastExecution_commit (standing_of_deals is others) active now

/-- However a store was used before, it forgets what it is told to but the dates of the pairs on
which a claim stands. -/
theorem deals_forget (ds : List Dealing) :
    (∀ target, Forgets (empty.deals ds) (.reset target)) ∧ Forgets (empty.deals ds) .clear := by
  have tidy : (empty.deals ds).Tidy := (tidy_uses []).deals ds
  constructor
  · exact fun target => tidy.forgets rfl (Store.forgot_resetTarget _ target)
  · exact tidy.forgets rfl (Store.forgot_clear _)

/-- An action with a cooldown of a second is executed, and claimed again two seconds later. -/
def redone : List Dealing :=
  [.use (.claim (⟨0⟩, "p1") ⟨.ofSeconds 1, false⟩ ⟨0⟩), .use (.commit 0 ⟨0⟩),
    .use (.claim (⟨0⟩, "p1") ⟨.ofSeconds 1, false⟩ (.ofSeconds 2))]

/-- A date is not forgotten while the pair is claimed again, and it is back when that claim is given
up. -/
theorem redone_remembered :
    ¬ (∀ ds target n, ((empty.deals ds).use (.reset target)).store.lastExecution (n, target) =
      none) ∧
    ¬ (∀ ds p, ((empty.deals ds).use .clear).store.lastExecution p = none) ∧
    ((empty.deals redone).use (.reset "p1")).store.size = 1 ∧
    (((empty.deals redone).use (.reset "p1")).use (.release 1)).store.lastExecution (⟨0⟩, "p1") =
      some ⟨0⟩ := by
  refine ⟨fun claim => ?_, fun claim => ?_, by decide +kernel, by decide +kernel⟩
  · exact absurd (claim redone "p1" ⟨0⟩) (by decide +kernel)
  · exact absurd (claim redone (⟨0⟩, "p1")) (by decide +kernel)

end Custody

end Cuescript
