import Cuescript.Catalogue.Conditions
import Cuescript.Proofs.Options.Series
import Cuescript.Proofs.Options.Slots

/-!
Option text whose items change places. Bare values go to the options by their number, so they have
to stay in order, and so do the values of one option. Main statement: apart from that, the order of
the items does not count, and neither does the spelling of their keys.
-/
namespace Cuescript.Options

variable {γ : Type} {s : Schema γ}

def Item.role (s : Schema γ) : Item → Role
  | named key separator raw _ =>
    s.role ⟨some (String.ofList key.chars), separator, String.ofList (unquoted raw)⟩
  | positional raw .. => .bare (String.ofList (unquoted raw))

/-- The same item under another spelling of its key. The text before a colon is no key if no option
has it. -/
inductive Respelled (s : Schema γ) : Item → Item → Prop
  | same (e : Item) : Respelled s e e
  | key {key key' : Key} {separator : Separator} {raw : List Char}
      {closed : isClosed false raw = true} (known : s.Knows (String.ofList key.chars))
      (normal : normalizeKey (String.ofList key'.chars) = normalizeKey (String.ofList key.chars)) :
      Respelled s (.named key separator raw closed) (.named key' separator raw closed)

structure Errand where
  item : Item
  option : Nat

namespace Errand

def isBare (s : Schema γ) (e : Errand) : Bool := (e.item.role s).isBare

def job (s : Schema γ) (e : Errand) : Assignment := ⟨e.option, (e.item.role s).value⟩

end Errand

/-- The same errands in another order, where bare ones come in the same order and so do those to one
option. -/
structure Reordered (s : Schema γ) (es fs : List Errand) : Prop where
  bare : fs.filter (·.isBare s) = es.filter (·.isBare s)
  same : ∀ n, fs.filter (·.option = n) = es.filter (·.option = n)

def Reordering (s : Schema γ) (xs ys : List Item) : Prop :=
  ∃ es fs : List Errand, es.map (·.item) = xs ∧ fs.map (·.item) = ys ∧
    s.Assigns 0 (es.map (·.item.role s)) (es.map (·.job s)) ∧ Reordered s es fs

section Roles

variable {x y : Item} {xs ys : List Item} {jobs : List Assignment} {i n : Nat}

theorem role_of_is {t : Token} (is : x.Is t) : s.role t = x.role s := by
  cases x with
  | named => rw [is, Item.role]
  | positional =>
    obtain ⟨keyless, value⟩ := is
    rw [Schema.role, keyless, value, Item.role]

theorem map_role_of_is {tokens : List Token} (are : List.Forall₂ Item.Is xs tokens) :
    tokens.map s.role = xs.map (·.role s) := by
  induction are with
  | nil => rfl
  | cons is _ ih => rw [List.map_cons, List.map_cons, role_of_is is, ih]

theorem role_of_knows {key value : String} {separator : Separator} (knows : s.Knows key) :
    s.role ⟨some key, separator, value⟩ = .named key value :=
  if_neg fun h => h.2 knows

theorem Respelled.role_cases (respelled : Respelled s x y) :
    y.role s = x.role s ∨ ∃ key key' value, x.role s = .named key value ∧
      y.role s = .named key' value ∧ normalizeKey key' = normalizeKey key := by
  cases respelled with
  | same => exact .inl rfl
  | @key key key' _ _ _ known normal =>
    have known' : s.Knows (String.ofList key'.chars) := by
      obtain ⟨d, member, same⟩ := known
      exact ⟨d, member, same.trans normal.symm⟩
    exact .inr ⟨_, _, _, role_of_knows known, role_of_knows known', normal⟩

theorem bears_of_normal {key key' : String} (bears : s.Bears key n)
    (normal : normalizeKey key' = normalizeKey key) : s.Bears key' n := by
  unfold Schema.Bears at bears ⊢
  rwa [normal]

theorem assigns_respelled (assigns : s.Assigns i (xs.map (·.role s)) jobs)
    (respelled : List.Forall₂ (Respelled s) xs ys) : s.Assigns i (ys.map (·.role s)) jobs := by
  induction respelled generalizing i jobs with
  | nil => exact assigns
  | cons first _ ih =>
    cases assigns with
    | cons goes rest =>
      have rest := ih rest
      rw [List.map_cons]
      dsimp only at goes rest ⊢
      rcases first.role_cases with same | ⟨key, key', value, x_is, y_is, normal⟩
      · rw [same]
        exact .cons goes rest
      · rw [x_is] at goes rest ⊢
        rw [y_is]
        cases goes with
        | named bears => exact .cons (.named (bears_of_normal bears normal)) rest

end Roles

section Orders

variable {es fs : List Errand} {i : Nat}

theorem goes_anywhere {r : Role} {n : Nat} (keyed : r.isBare = false) (goes : s.Goes i r n)
    (j : Nat) : s.Goes j r n := by
  cases goes with
  | named bears => exact .named bears
  | bare => cases keyed

theorem assigns_iff : s.Assigns i (es.map (·.item.role s)) (es.map (·.job s)) ↔
    (∀ e ∈ es, e.isBare s = false → ∀ j, s.Goes j (e.item.role s) e.option) ∧
      ∀ k e, (es.filter (·.isBare s))[k]? = some e → s.Goes (i + k) (e.item.role s) e.option := by
  induction es generalizing i with
  | nil => simp [Schema.Assigns.nil]
  | cons e es ih =>
    have split : s.Assigns i ((e :: es).map (·.item.role s)) ((e :: es).map (·.job s)) ↔
        s.Goes i (e.item.role s) e.option ∧ s.Assigns (i + Role.bares [e.item.role s])
          (es.map (·.item.role s)) (es.map (·.job s)) := by
      constructor
      · rintro (_ | ⟨goes, rest⟩)
        exact ⟨goes, rest⟩
      · rintro ⟨goes, rest⟩
        exact .cons goes rest
    rw [split, ih]
    cases bare : e.isBare s with
    | true =>
      have one : Role.bares [e.item.role s] = 1 := by simpa [Role.bares, Errand.isBare] using bare
      rw [one, List.filter_cons_of_pos bare, List.forall_mem_cons]
      constructor
      · rintro ⟨goes, others, bares⟩
        refine ⟨⟨by simp [bare], others⟩, fun k f here => ?_⟩
        cases k with
        | zero =>
          cases here
          exact goes
        | succ k =>
          rw [Nat.add_comm k, ← Nat.add_assoc]
          exact bares k f here
      · rintro ⟨⟨_, others⟩, bares⟩
        refine ⟨bares 0 e rfl, others, fun k f here => ?_⟩
        rw [Nat.add_assoc, Nat.add_comm 1]
        exact bares (k + 1) f here
    | false =>
      have none : Role.bares [e.item.role s] = 0 := by simpa [Role.bares, Errand.isBare] using bare
      have anywhere : s.Goes i (e.item.role s) e.option ↔
          ∀ j, s.Goes j (e.item.role s) e.option :=
        ⟨goes_anywhere bare, fun goes => goes i⟩
      rw [none, Nat.add_zero, List.filter_cons_of_neg (by simp [bare]), List.forall_mem_cons,
        anywhere, and_assoc]
      simp [bare]

theorem Reordered.perm (reordered : Reordered s es fs) : fs.Perm es := by
  classical
  refine List.perm_iff_count.mpr fun e => ?_
  have counts := congrArg (List.count e) (reordered.same e.option)
  rwa [List.count_filter (by simp), List.count_filter (by simp)] at counts

theorem Reordered.assigns (reordered : Reordered s es fs)
    (assigns : s.Assigns 0 (es.map (·.item.role s)) (es.map (·.job s))) :
    s.Assigns 0 (fs.map (·.item.role s)) (fs.map (·.job s)) := by
  obtain ⟨named, bares⟩ := assigns_iff.mp assigns
  rw [← reordered.bare] at bares
  exact assigns_iff.mpr ⟨fun e member => named e (reordered.perm.subset member), bares⟩

theorem sent_map (es : List Errand) (n : Nat) :
    Slots.sent n (es.map (·.job s)) = (es.filter (·.option = n)).map (·.job s) := by
  rw [Slots.sent, List.filter_map]
  rfl

theorem Reordered.given (reordered : Reordered s es fs) {key : String}
    (given : key ∈ s.given (es.map (·.job s))) : key ∈ s.given (fs.map (·.job s)) := by
  have same : (es.map (·.job s)).Perm (fs.map (·.job s)) := reordered.perm.symm.map _
  exact (same.filterMap _).subset given

end Orders

/-- Items may change places and keys may be respelled. -/
theorem Slots.Private.bind_reordered {slots : Slots s} (apart : slots.Private) {initial config : γ}
    {x y : Series} {zs : List Item} (settled : x.Settled) (settled' : y.Settled)
    (reordering : Reordering s x.items zs) (respelled : List.Forall₂ (Respelled s) zs y.items)
    (bound : s.bind initial x.text = .ok config) : s.bind initial y.text = .ok config := by
  obtain ⟨distinct, tokens, jobs, cut, assigns, done, all⟩ := Schema.bind_eq_ok_iff.mp bound
  obtain ⟨es, fs, items, items', assigns', reordered⟩ := reordering
  obtain ⟨tokens₁, cut₁, are⟩ := x.tokenize?_eq settled
  obtain ⟨tokens₂, cut₂, are'⟩ := y.tokenize?_eq settled'
  cases Option.some.inj (cut.symm.trans cut₁)
  have jobs_are : jobs = es.map (·.job s) := by
    rw [map_role_of_is are, ← items, List.map_map] at assigns
    exact assigns.unique distinct assigns'
  subst jobs_are
  refine Schema.bind_eq_ok_iff.mpr ⟨distinct, tokens₂, fs.map (·.job s), cut₂, ?_, ?_, ?_⟩
  · rw [map_role_of_is are']
    refine assigns_respelled ?_ respelled
    rw [← items', List.map_map]
    exact reordered.assigns assigns'
  · refine apart.perform_eq (fun n => ?_) done
    rw [sent_map, sent_map, reordered.same]
  · exact fun d member required => reordered.given (all d member required)

section Verdicts

open Catalogue

def verdictSlot : Nat → Verdict → String
  | 0, v => v.kind
  | 1, v => v.message
  | _, _ => ""

theorem verdictSlot_ext (v w : Verdict) (same : ∀ n, verdictSlot n v = verdictSlot n w) :
    v = w := by
  obtain ⟨kind, message⟩ := v
  obtain ⟨kind', message'⟩ := w
  obtain rfl : kind = kind' := same 0
  obtain rfl : message = message' := same 1
  rfl

def verdictSlots : Slots Verdict.schema where
  Content _ := String
  content := verdictSlot
  ext := verdictSlot_ext
  elsewhere := by
    rintro (_ | _ | n) d is v text (_ | _ | m) other
    all_goals cases is
    all_goals first | rfl | exact absurd rfl other

theorem verdictSlots_private : verdictSlots.Private := by
  rintro (_ | _ | n) d is v w text same
  all_goals cases is
  all_goals exact ⟨rfl, rfl⟩

theorem verdict_distinct : Verdict.schema.Distinct := by
  rintro (_ | _ | p)
  · exact Nat.le_refl 1
  · exact Nat.le_refl 1
  · exact Nat.zero_le 1

/-- Without required options it is enough that each value finds its option and is taken. -/
theorem bind_of_optional {initial config : γ} {text : String}
    {tokens : List Token} {jobs : List Assignment} (distinct : s.Distinct)
    (optional : ∀ d ∈ s.decls, d.required = false) (cut : tokenize? text = some tokens)
    (assigns : s.Assigns 0 (tokens.map s.role) jobs)
    (done : s.perform initial jobs = some config) : s.bind initial text = .ok config :=
  Schema.bind_eq_ok_iff.mpr ⟨distinct, tokens, jobs, cut, assigns, done,
    fun d member required => by simp [optional d member] at required⟩

def pair (e f : Item) : Series where
  parts := [⟨[], nofun, e⟩, ⟨[' '], List.forall_mem_singleton.mpr rfl, f⟩]
  trail := []
  delimits := nofun
  apart := by simp

theorem pair_settled {e : Item} (full : e.isHollow = false) (f : Item) : (pair e f).Settled := by
  simp [Series.Settled, pair, full]

theorem pair_reordering {e f : Item} {n m : Nat}
    (assigns : s.Assigns 0 [e.role s, f.role s] [⟨n, (e.role s).value⟩, ⟨m, (f.role s).value⟩])
    (apart : n ≠ m) (keyed : (f.role s).isBare = false) :
    Reordering s (pair e f).items (pair f e).items := by
  refine ⟨[⟨e, n⟩, ⟨f, m⟩], [⟨f, m⟩, ⟨e, n⟩], rfl, rfl, assigns, ?_, fun k => ?_⟩
  · simp [List.filter_cons, Errand.isBare, keyed]
  · by_cases first : n = k
    · simp [← first, apart.symm]
    · simp [List.filter_cons, first]

def word : Item := .positional ['a'] (by decide) (by decide) (by decide)

def kindKey : Key := ⟨"kind".toList, by decide, List.all_eq_true.mp (by decide)⟩

def messageKey : Key := ⟨"message".toList, by decide, List.all_eq_true.mp (by decide)⟩

def loudKey : Key := ⟨"MESSAGE".toList, by decide, List.all_eq_true.mp (by decide)⟩

def keyed (key : Key) : Item := .named key .equals ['b'] (by decide)

theorem word_assigns (value : String) : Verdict.schema.Assigns 0 [.bare "a", .named "message" value]
    [⟨0, "a"⟩, ⟨1, value⟩] :=
  .cons (.bare ⟨_, 0, rfl, rfl, rfl⟩) <| .cons (.named ⟨⟨_, rfl, rfl⟩, by decide⟩) .nil

theorem bind_reordered_loud : verdictSlots.Private ∧ (pair word (keyed messageKey)).Settled ∧
    (pair (keyed loudKey) word).Settled ∧
    Reordering Verdict.schema (pair word (keyed messageKey)).items [keyed messageKey, word] ∧
    List.Forall₂ (Respelled Verdict.schema) [keyed messageKey, word]
      (pair (keyed loudKey) word).items ∧
    Verdict.schema.bind ⟨"", ""⟩ "a message=b" = .ok ⟨"a", "b"⟩ ∧
    Verdict.schema.bind ⟨"", ""⟩ "MESSAGE=b a" = .ok ⟨"a", "b"⟩ := by
  have settled : (pair word (keyed messageKey)).Settled := pair_settled rfl _
  have settled' : (pair (keyed loudKey) word).Settled := pair_settled rfl _
  have reordering := pair_reordering (e := word) (f := keyed messageKey) (word_assigns "b")
    (by decide) rfl
  have respelled : List.Forall₂ (Respelled Verdict.schema) [keyed messageKey, word]
      (pair (keyed loudKey) word).items :=
    .cons (.key (by decide) (by decide +kernel)) (.cons (.same _) .nil)
  have text : (pair word (keyed messageKey)).text = "a message=b" := by decide +kernel
  have text' : (pair (keyed loudKey) word).text = "MESSAGE=b a" := by decide +kernel
  have bound : Verdict.schema.bind ⟨"", ""⟩ "a message=b" = .ok ⟨"a", "b"⟩ := by
    have cut : tokenize? "a message=b" =
        some [⟨none, .equals, "a"⟩, ⟨some "message", .equals, "b"⟩] := by decide +kernel
    exact bind_of_optional verdict_distinct (by decide) cut (word_assigns "b") rfl
  have bound' : Verdict.schema.bind ⟨"", ""⟩ "MESSAGE=b a" = .ok ⟨"a", "b"⟩ := by
    rw [← text] at bound
    rw [← text']
    exact verdictSlots_private.bind_reordered settled settled' reordering respelled bound
  exact ⟨verdictSlots_private, settled, settled', reordering, respelled, bound, bound'⟩

/-- The second option copies what the first one holds. -/
def copying : Schema Verdict :=
  Schema.empty
    |>.option "kind" (writeText fun v s => { v with kind := s })
    |>.option "message" fun v _ => ({ v with message := v.kind }, .ok ())

def copyingSlots : Slots copying where
  Content _ := String
  content := verdictSlot
  ext := verdictSlot_ext
  elsewhere := by
    rintro (_ | _ | n) d is v text (_ | _ | m) other
    all_goals cases is
    all_goals first | rfl | exact absurd rfl other

theorem copying_distinct : copying.Distinct := fun _ => Nat.zero_le 1

theorem copying_assigns : copying.Assigns 0 [.named "kind" "b", .named "message" "b"]
    [⟨0, "b"⟩, ⟨1, "b"⟩] :=
  .cons (.named ⟨⟨_, rfl, rfl⟩, nofun⟩) <| .cons (.named ⟨⟨_, rfl, rfl⟩, by decide⟩) .nil

theorem bind_copying : copying.bind ⟨"", ""⟩ "kind=b message=b" = .ok ⟨"b", "b"⟩ := by
  have cut : tokenize? "kind=b message=b" =
      some [⟨some "kind", .equals, "b"⟩, ⟨some "message", .equals, "b"⟩] := by decide +kernel
  exact bind_of_optional copying_distinct (by decide) cut copying_assigns rfl

theorem bind_copying_first : copying.bind ⟨"", ""⟩ "message=b kind=b" = .ok ⟨"b", ""⟩ := by
  have cut : tokenize? "message=b kind=b" =
      some [⟨some "message", .equals, "b"⟩, ⟨some "kind", .equals, "b"⟩] := by decide +kernel
  have assigns : copying.Assigns 0 [.named "message" "b", .named "kind" "b"]
      [⟨1, "b"⟩, ⟨0, "b"⟩] :=
    .cons (.named ⟨⟨_, rfl, rfl⟩, by decide⟩) <| .cons (.named ⟨⟨_, rfl, rfl⟩, nofun⟩) .nil
  exact bind_of_optional copying_distinct (by decide) cut assigns rfl

def hollow : Item := .named messageKey .equals [] rfl

theorem bind_hollow : Verdict.schema.bind ⟨"", ""⟩ "a message=" = .ok ⟨"a", ""⟩ := by
  have cut : tokenize? "a message=" =
      some [⟨none, .equals, "a"⟩, ⟨some "message", .equals, ""⟩] := by decide +kernel
  exact bind_of_optional verdict_distinct (by decide) cut (word_assigns "") rfl

/-- The key waits for its value and takes the next word. -/
theorem bind_hollow_first : Verdict.schema.bind ⟨"", ""⟩ "message= a" = .ok ⟨"", "a"⟩ := by
  have cut : tokenize? "message= a" = some [⟨some "message", .equals, "a"⟩] := by decide +kernel
  have assigns : Verdict.schema.Assigns 0 [.named "message" "a"] [⟨1, "a"⟩] :=
    .cons (.named ⟨⟨_, rfl, rfl⟩, by decide⟩) .nil
  exact bind_of_optional verdict_distinct (by decide) cut assigns rfl

/-- The order of the items counts if an item has nothing behind its separator and blanks behind
that, or if an option looks at the slot of another one. -/
theorem bind_reordered_ne :
    (¬ ∀ (s : Schema Verdict) (slots : Slots s) (initial config : Verdict) (x y : Series),
      s.Distinct → (s.decls.Pairwise fun d e => normalizeKey d.key ≠ normalizeKey e.key) →
      slots.Private → Reordering s x.items y.items → s.bind initial x.text = .ok config →
        s.bind initial y.text = .ok config) ∧
    ¬ ∀ (s : Schema Verdict) (_ : Slots s) (initial config : Verdict) (x y : Series),
      s.Distinct → (s.decls.Pairwise fun d e => normalizeKey d.key ≠ normalizeKey e.key) →
      x.Settled → y.Settled → Reordering s x.items y.items → s.bind initial x.text = .ok config →
        s.bind initial y.text = .ok config := by
  constructor
  · intro claimed
    have reordering := pair_reordering (e := word) (f := hollow) (word_assigns "") (by decide) rfl
    have same := claimed Verdict.schema verdictSlots ⟨"", ""⟩ ⟨"a", ""⟩ _ _ verdict_distinct
      (by decide) verdictSlots_private reordering bind_hollow
    have equal := Except.ok.inj (bind_hollow_first.symm.trans same)
    exact absurd (congrArg Verdict.kind equal) (by decide)
  · intro claimed
    have reordering := pair_reordering (e := keyed kindKey) (f := keyed messageKey)
      copying_assigns (by decide) rfl
    have same := claimed copying copyingSlots ⟨"", ""⟩ ⟨"b", "b"⟩ _ _ copying_distinct (by decide)
      (pair_settled rfl _) (pair_settled rfl _) reordering bind_copying
    have equal := Except.ok.inj (bind_copying_first.symm.trans same)
    exact absurd (congrArg Verdict.message equal) (by decide)

end Verdicts

end Cuescript.Options
