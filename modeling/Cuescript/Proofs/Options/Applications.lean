import Cuescript.Options.Record
import Cuescript.Proofs.Options.Positions
import Cuescript.Proofs.Options.Quotes

/-!
What comes of option text that is applied to a config. Each token has a role, a role and the number
of bare values before it name an option, and the options named are written to in turn. Main
statement: which error is reported, and what the config is then, in the order in which the phases
of an application come.
-/
namespace Cuescript.Options

variable {γ : Type}

/-- What a token is to a schema: a value for the option of a key, or a bare value. -/
inductive Role where
  | named (key value : String)
  | bare (value : String)

namespace Role

def value : Role → String
  | named _ value => value
  | bare value => value

def isBare : Role → Bool
  | named .. => false
  | bare _ => true

def bares (rs : List Role) : Nat := rs.countP isBare

end Role

structure Assignment where
  option : Nat
  value : String

namespace Schema

variable (s : Schema γ)

def Knows (key : String) : Prop := ∃ d ∈ s.decls, normalizeKey d.key = normalizeKey key

instance (key : String) : Decidable (s.Knows key) :=
  inferInstanceAs (Decidable (∃ d ∈ s.decls, normalizeKey d.key = normalizeKey key))

/-- A key before a colon that no option has is part of a bare value. -/
def role (t : Token) : Role :=
  match t.key with
  | none => .bare t.value
  | some key =>
    if t.separator = .colon ∧ ¬ s.Knows key then .bare (key ++ ":" ++ t.value)
    else .named key t.value

def Bears (key : String) (n : Nat) : Prop :=
  (∃ d, s.decls[n]? = some d ∧ normalizeKey d.key = normalizeKey key) ∧
    ∀ m < n, ∀ e, s.decls[m]? = some e → normalizeKey e.key ≠ normalizeKey key

/-- A value with `i` bare values before it goes to option `n`. -/
inductive Goes (i : Nat) : Role → Nat → Prop
  | named {key value : String} {n : Nat} (bears : s.Bears key n) : Goes i (.named key value) n
  | bare {value : String} {n : Nat} (fills : s.Fills i n) : Goes i (.bare value) n

inductive Assigns : Nat → List Role → List Assignment → Prop
  | nil {i : Nat} : Assigns i [] []
  | cons {i n : Nat} {r : Role} {rs : List Role} {jobs : List Assignment} (goes : s.Goes i r n)
      (rest : Assigns (i + Role.bares [r]) rs jobs) : Assigns i (r :: rs) (⟨n, r.value⟩ :: jobs)

def assign (config : γ) (job : Assignment) : Option γ :=
  match s.decls[job.option]? with
  | none => none
  | some d =>
    match d.write config job.value with
    | (config, .ok ()) => some config
    | (_, .error _) => none

def perform (config : γ) (jobs : List Assignment) : Option γ := jobs.foldlM s.assign config

def given (jobs : List Assignment) : List String :=
  jobs.filterMap fun job => s.decls[job.option]?.map (·.key)

/-- What comes of tokens with the roles `rs`: the first one that goes nowhere or is refused ends it;
after the last one the required options are looked through. -/
inductive Ends (config : γ) (rs : List Role) : Applied γ → Prop
  | unknown {before rest : List Role} {jobs : List Assignment} {key value : String} {config' : γ}
      (split : rs = before ++ .named key value :: rest) (assigns : s.Assigns 0 before jobs)
      (done : s.perform config jobs = some config') (unknown : ¬ s.Knows key) :
      Ends config rs ⟨config', some (.unknownOption key)⟩
  | unexpected {before rest : List Role} {jobs : List Assignment} {value : String} {config' : γ}
      (split : rs = before ++ .bare value :: rest) (assigns : s.Assigns 0 before jobs)
      (done : s.perform config jobs = some config')
      (full : ∀ n, ¬ s.Fills (Role.bares before) n) :
      Ends config rs ⟨config', some (.unexpectedValue value)⟩
  | refused {before rest : List Role} {jobs : List Assignment} {r : Role} {n : Nat} {d : Decl γ}
      {config' config'' : γ} {reason : String}
      (split : rs = before ++ r :: rest) (assigns : s.Assigns 0 before jobs)
      (done : s.perform config jobs = some config') (goes : s.Goes (Role.bares before) r n)
      (is : s.decls[n]? = some d) (refuses : d.write config' r.value = (config'', .error reason)) :
      Ends config rs ⟨config'', some (.invalidValue d.key r.value reason)⟩
  | missing {jobs : List Assignment} {n : Nat} {d : Decl γ} {config' : γ}
      (assigns : s.Assigns 0 rs jobs) (done : s.perform config jobs = some config')
      (is : s.decls[n]? = some d) (required : d.required = true) (absent : d.key ∉ s.given jobs)
      (first : ∀ m < n, ∀ e, s.decls[m]? = some e → e.required = true → e.key ∈ s.given jobs) :
      Ends config rs ⟨config', some (.missingRequired d.key)⟩
  | complete {jobs : List Assignment} {config' : γ}
      (assigns : s.Assigns 0 rs jobs) (done : s.perform config jobs = some config')
      (all : ∀ d ∈ s.decls, d.required = true → d.key ∈ s.given jobs) :
      Ends config rs ⟨config', none⟩

/-- What comes of a text: shared positions are found before the text is looked at, and an open quote
before the first token. -/
inductive Answers (config : γ) (text : String) : Applied γ → Prop
  | clash {p : Nat} {d e : Decl γ} (shared : Shared s.decls p d e) :
      Answers config text ⟨config, some (.duplicatePosition p d.key e.key)⟩
  | unterminated (distinct : s.Distinct) (odd : text.toList.count '"' % 2 = 1) :
      Answers config text ⟨config, some (.unterminatedQuote text)⟩
  | ended {tokens : List Token} {a : Applied γ} (distinct : s.Distinct)
      (even : text.toList.count '"' % 2 = 0) (cut : tokenize? text = some tokens)
      (ends : s.Ends config (tokens.map s.role) a) : Answers config text a

variable {s} {key : String} {d : Decl γ} {n i : Nat}

section Destinations

theorem find?_iff : s.find? key = some d ↔ ∃ n, s.decls[n]? = some d ∧ s.Bears key n := by
  rw [find?, List.find?_eq_some_iff_getElem]
  constructor
  · rintro ⟨same, n, inside, is, before⟩
    have is : s.decls[n]? = some d := by rw [List.getElem?_eq_getElem inside, is]
    refine ⟨n, is, ⟨d, is, beq_iff_eq.mp same⟩, fun m less e there => ?_⟩
    obtain ⟨_, rfl⟩ := List.getElem?_eq_some_iff.mp there
    simpa using before m less
  · rintro ⟨n, is, ⟨d', is', same⟩, before⟩
    cases Option.some.inj (is.symm.trans is')
    obtain ⟨inside, rfl⟩ := List.getElem?_eq_some_iff.mp is
    refine ⟨beq_iff_eq.mpr same, n, inside, rfl, fun m less => ?_⟩
    simpa using before m less _ (List.getElem?_eq_getElem (Nat.lt_trans less inside))

theorem find?_eq_none_iff : s.find? key = none ↔ ¬ s.Knows key := by
  rw [find?, List.find?_eq_none, Knows, not_exists]
  simp

theorem knows_of_bears (bears : s.Bears key n) : s.Knows key := by
  obtain ⟨⟨d, is, same⟩, _⟩ := bears
  exact ⟨d, List.mem_of_getElem? is, same⟩

theorem exists_bears (knows : s.Knows key) : ∃ n d, s.decls[n]? = some d ∧ s.Bears key n := by
  cases found : s.find? key with
  | none => exact absurd knows (find?_eq_none_iff.mp found)
  | some d =>
    obtain ⟨n, is, bears⟩ := find?_iff.mp found
    exact ⟨n, d, is, bears⟩

def target (s : Schema γ) (i : Nat) : Role → Except BindError (Destination γ)
  | .named key value =>
    match s.find? key with
    | some d => .ok ⟨d, value, false⟩
    | none => .error (.unknownOption key)
  | .bare value => nextPosition (s.positional.drop i) value

theorem destination_eq_target (t : Token) :
    s.destination (s.positional.drop i) t = s.target i (s.role t) := by
  unfold destination role
  cases t.key with
  | none => rfl
  | some key =>
    dsimp only
    cases found : s.find? key with
    | some d =>
      obtain ⟨n, is, bears⟩ := find?_iff.mp found
      rw [if_neg fun h => h.2 (knows_of_bears bears), target, found]
    | none =>
      have unknown := find?_eq_none_iff.mp found
      cases t.separator with
      | colon => rw [if_pos ⟨rfl, unknown⟩]; rfl
      | equals => rw [if_neg nofun, target, found]

theorem target_of_goes {r : Role} (distinct : s.Distinct) (goes : s.Goes i r n)
    (is : s.decls[n]? = some d) : s.target i r = .ok ⟨d, r.value, r.isBare⟩ := by
  cases goes with
  | named bears =>
    rw [target, find?_iff.mpr ⟨n, is, bears⟩]
    rfl
  | bare fills =>
    have here := distinct.getElem?_positional.mpr ⟨n, is, fills⟩
    rw [target, List.drop_eq_getElem_cons (List.getElem?_eq_some_iff.mp here).1,
      (List.getElem?_eq_some_iff.mp here).2]
    rfl

theorem target_of_unknown {value : String} (unknown : ¬ s.Knows key) :
    s.target i (.named key value) = .error (.unknownOption key) := by
  rw [target, find?_eq_none_iff.mpr unknown]

theorem target_of_full {value : String} (distinct : s.Distinct) (full : ∀ n, ¬ s.Fills i n) :
    s.target i (.bare value) = .error (.unexpectedValue value) := by
  have short : s.positional.drop i = [] := by
    rw [List.drop_eq_nil_iff, ← List.getElem?_eq_none_iff]
    cases here : s.positional[i]? with
    | none => rfl
    | some d =>
      obtain ⟨n, _, fills⟩ := distinct.getElem?_positional.mp here
      exact absurd fills (full n)
  rw [target, short]
  rfl

end Destinations

section Runs

variable {config config' : γ} {seen : List String} {ts : List Token} {rs : List Role}
  {jobs : List Assignment}

theorem assign_eq_some_iff {job : Assignment} : s.assign config job = some config' ↔
    ∃ d, s.decls[job.option]? = some d ∧ d.write config job.value = (config', .ok ()) := by
  unfold assign
  constructor
  · intro done
    split at done
    · cases done
    · rename_i d is
      split at done
      · rename_i written
        cases done
        exact ⟨d, is, written⟩
      · cases done
  · rintro ⟨d, is, written⟩
    simp only [is, written]

theorem bares_cons (r : Role) (rs : List Role) :
    Role.bares (r :: rs) = Role.bares [r] + Role.bares rs := by
  rw [Role.bares, ← List.singleton_append, List.countP_append]
  rfl

theorem perform_cons (config : γ) (job : Assignment) (jobs : List Assignment) :
    s.perform config (job :: jobs) = (s.assign config job).bind (s.perform · jobs) := rfl

theorem perform_append (config : γ) (jobs jobs' : List Assignment) :
    s.perform config (jobs ++ jobs') = (s.perform config jobs).bind (s.perform · jobs') := by
  rw [perform, List.foldlM_append]
  rfl

theorem given_cons {job : Assignment} (is : s.decls[job.option]? = some d) :
    s.given (job :: jobs) = d.key :: s.given jobs := by
  rw [given, List.filterMap_cons, is]
  rfl

theorem applyTokens_goes {t : Token} (distinct : s.Distinct) (goes : s.Goes i (s.role t) n)
    (is : s.decls[n]? = some d) (written : d.write config (s.role t).value = (config', .ok ())) :
    s.applyTokens (s.positional.drop i) seen config (t :: ts) =
      s.applyTokens (s.positional.drop (i + Role.bares [s.role t])) (d.key :: seen) config' ts := by
  rw [applyTokens, destination_eq_target, target_of_goes distinct goes is]
  simp only [written]
  congr 1
  cases s.role t with
  | named => rfl
  | bare => exact List.tail_drop

theorem applyTokens_refused {t : Token} {reason : String} (distinct : s.Distinct)
    (goes : s.Goes i (s.role t) n) (is : s.decls[n]? = some d)
    (refuses : d.write config (s.role t).value = (config', .error reason)) :
    s.applyTokens (s.positional.drop i) seen config (t :: ts) =
      ⟨config', some (.invalidValue d.key (s.role t).value reason)⟩ := by
  rw [applyTokens, destination_eq_target, target_of_goes distinct goes is]
  simp only [refuses]

theorem applyTokens_error {t : Token} {e : BindError} (nowhere : s.target i (s.role t) = .error e) :
    s.applyTokens (s.positional.drop i) seen config (t :: ts) = ⟨config, some e⟩ := by
  rw [applyTokens, destination_eq_target, nowhere]

/-- Tokens that all go somewhere and are not refused leave the work to those behind them. -/
theorem applyTokens_append {before : List Token} (distinct : s.Distinct)
    (assigns : s.Assigns i (before.map s.role) jobs) (done : s.perform config jobs = some config') :
    ∃ seen', (∀ key, key ∈ seen' ↔ key ∈ seen ∨ key ∈ s.given jobs) ∧
      s.applyTokens (s.positional.drop i) seen config (before ++ ts) =
        s.applyTokens (s.positional.drop (i + Role.bares (before.map s.role))) seen' config'
          ts := by
  induction before generalizing i jobs seen config with
  | nil =>
    cases assigns
    cases done
    exact ⟨seen, fun key => by simp [given], rfl⟩
  | cons t before ih =>
    cases assigns with
    | @cons _ n _ _ jobs goes rest =>
      rw [perform_cons] at done
      obtain ⟨middle, written, done⟩ := Option.bind_eq_some_iff.mp done
      obtain ⟨d, is, written⟩ := assign_eq_some_iff.mp written
      obtain ⟨seen', gone, runs⟩ := @ih _ _ (d.key :: seen) _ rest done
      refine ⟨seen', fun key => ?_, ?_⟩
      · rw [gone, given_cons is, List.mem_cons, List.mem_cons, or_assoc, or_left_comm]
      · rw [List.cons_append, applyTokens_goes distinct goes is written, runs, List.map_cons,
          bares_cons _ (before.map s.role), Nat.add_assoc]

theorem missing?_eq_none_iff :
    s.missing? seen = none ↔ ∀ d ∈ s.decls, d.required = true → d.key ∈ seen := by
  rw [missing?, Option.map_eq_none_iff, List.find?_eq_none]
  simp

theorem missing?_of_first (is : s.decls[n]? = some d) (required : d.required = true)
    (absent : d.key ∉ seen)
    (first : ∀ m < n, ∀ e, s.decls[m]? = some e → e.required = true → e.key ∈ seen) :
    s.missing? seen = some (.missingRequired d.key) := by
  obtain ⟨inside, rfl⟩ := List.getElem?_eq_some_iff.mp is
  rw [missing?, List.find?_eq_some_iff_getElem.mpr ⟨?_, n, inside, rfl, fun m less => ?_⟩]
  · rfl
  · simpa [required] using absent
  · have seen_there := first m less s.decls[m] (List.getElem?_eq_getElem _)
    cases required : s.decls[m].required with
    | false => simp
    | true => simp [seen_there required]

theorem exists_missing (s : Schema γ) (seen : List String) :
    (∀ d ∈ s.decls, d.required = true → d.key ∈ seen) ∨
      ∃ (n : Nat) (d : Decl γ), s.decls[n]? = some d ∧ d.required = true ∧ d.key ∉ seen ∧
        ∀ m < n, ∀ e, s.decls[m]? = some e → e.required = true → e.key ∈ seen := by
  cases found : s.decls.find? fun d => d.required && !seen.contains d.key with
  | none => exact .inl (by simpa using found)
  | some d =>
    obtain ⟨here, n, inside, is, before⟩ := List.find?_eq_some_iff_getElem.mp found
    have here : d.required = true ∧ d.key ∉ seen := by simpa using here
    refine .inr ⟨n, d, by rw [List.getElem?_eq_getElem inside, is], here.1, here.2, ?_⟩
    intro m less e there required
    obtain ⟨_, rfl⟩ := List.getElem?_eq_some_iff.mp there
    simpa [required] using before m less

theorem applyTokens_split {before rest : List Role} {r : Role} (distinct : s.Distinct)
    (split : ts.map s.role = before ++ r :: rest) (assigns : s.Assigns 0 before jobs)
    (done : s.perform config jobs = some config') :
    ∃ t ts' seen, s.role t = r ∧ s.applyTokens s.positional [] config ts =
      s.applyTokens (s.positional.drop (Role.bares before)) seen config' (t :: ts') := by
  obtain ⟨first, behind, rfl, rfl, behind_is⟩ := List.map_eq_append_iff.mp split
  obtain ⟨t, ts', rfl, role_is, _⟩ := List.map_eq_cons_iff.mp behind_is
  obtain ⟨seen, _, runs⟩ := applyTokens_append distinct assigns done
  rw [List.drop_zero, Nat.zero_add] at runs
  exact ⟨t, ts', seen, role_is, runs⟩

theorem applyTokens_all (distinct : s.Distinct) (assigns : s.Assigns 0 (ts.map s.role) jobs)
    (done : s.perform config jobs = some config') :
    ∃ seen, (∀ key, key ∈ seen ↔ key ∈ s.given jobs) ∧
      s.applyTokens s.positional [] config ts = ⟨config', s.missing? seen⟩ := by
  obtain ⟨seen, given, runs⟩ := @applyTokens_append _ s 0 _ _ [] [] _ ts distinct assigns done
  rw [List.drop_zero, List.append_nil] at runs
  exact ⟨seen, by simpa using given, runs⟩

theorem Ends.applyTokens_eq {a : Applied γ} (distinct : s.Distinct)
    (ends : s.Ends config (ts.map s.role) a) : s.applyTokens s.positional [] config ts = a := by
  cases ends with
  | unknown split assigns done unknown =>
    obtain ⟨t, ts', seen, role_is, runs⟩ := applyTokens_split distinct split assigns done
    rw [runs, applyTokens_error (role_is ▸ target_of_unknown unknown)]
  | unexpected split assigns done full =>
    obtain ⟨t, ts', seen, role_is, runs⟩ := applyTokens_split distinct split assigns done
    rw [runs, applyTokens_error (role_is ▸ target_of_full distinct full)]
  | refused split assigns done goes is refuses =>
    obtain ⟨t, ts', seen, rfl, runs⟩ := applyTokens_split distinct split assigns done
    rw [runs, applyTokens_refused distinct goes is refuses]
  | missing assigns done is required absent first =>
    obtain ⟨seen, given, runs⟩ := applyTokens_all distinct assigns done
    simp only [← given] at absent first
    rw [runs, missing?_of_first is required absent first]
  | complete assigns done all =>
    obtain ⟨seen, given, runs⟩ := applyTokens_all distinct assigns done
    simp only [← given] at all
    rw [runs, missing?_eq_none_iff.mpr all]

theorem Goes.exists_decl {r : Role} (goes : s.Goes i r n) : ∃ d, s.decls[n]? = some d := by
  cases goes with
  | named bears =>
    obtain ⟨⟨d, is, _⟩, _⟩ := bears
    exact ⟨d, is⟩
  | bare fills =>
    obtain ⟨d, _, is, _⟩ := fills
    exact ⟨d, is⟩

theorem Bears.unique {m : Nat} (one : s.Bears key n) (other : s.Bears key m) : n = m := by
  have first {n m : Nat} (one : s.Bears key n) (other : s.Bears key m) : ¬ n < m := by
    intro less
    obtain ⟨⟨d, is, same⟩, _⟩ := one
    exact other.2 n less d is same
  exact Nat.le_antisymm (Nat.le_of_not_lt (first other one)) (Nat.le_of_not_lt (first one other))

theorem Goes.unique {r : Role} {m : Nat} (distinct : s.Distinct) (one : s.Goes i r n)
    (other : s.Goes i r m) : n = m := by
  cases one with
  | named bears =>
    cases other with
    | named bears' => exact bears.unique bears'
  | bare fills =>
    cases other with
    | bare fills' => exact distinct.fills_unique fills fills'

theorem Assigns.unique {jobs' : List Assignment} (distinct : s.Distinct)
    (one : s.Assigns i rs jobs) (other : s.Assigns i rs jobs') : jobs = jobs' := by
  induction one generalizing jobs' with
  | nil =>
    cases other
    rfl
  | cons goes _ ih =>
    cases other with
    | cons goes' rest => rw [goes.unique distinct goes', ih rest]

theorem Assigns.concat {r : Role} (assigns : s.Assigns i rs jobs)
    (goes : s.Goes (i + Role.bares rs) r n) :
    s.Assigns i (rs ++ [r]) (jobs ++ [⟨n, r.value⟩]) := by
  induction assigns with
  | nil => exact .cons goes .nil
  | cons first _ ih =>
    rw [bares_cons, ← Nat.add_assoc] at goes
    exact .cons first (ih goes)

theorem exists_ends (s : Schema γ) (config : γ) (rs : List Role) : ∃ a, s.Ends config rs a := by
  suffices reached : ∀ (rest before : List Role) (jobs : List Assignment) (config' : γ),
      s.Assigns 0 before jobs → s.perform config jobs = some config' →
        ∃ a, s.Ends config (before ++ rest) a from reached rs [] [] config .nil rfl
  intro rest
  induction rest with
  | nil =>
    intro before jobs config' assigns done
    rw [List.append_nil]
    rcases s.exists_missing (s.given jobs) with all | ⟨n, d, is, required, absent, first⟩
    · exact ⟨_, .complete assigns done all⟩
    · exact ⟨_, .missing assigns done is required absent first⟩
  | cons r rest ih =>
    intro before jobs config' assigns done
    by_cases somewhere : ∃ n, s.Goes (Role.bares before) r n
    · obtain ⟨n, goes⟩ := somewhere
      obtain ⟨d, is⟩ := goes.exists_decl
      rcases written : d.write config' r.value with ⟨config'', reason | ⟨⟨⟩⟩⟩
      · exact ⟨_, .refused rfl assigns done goes is written⟩
      · have performed : s.perform config (jobs ++ [⟨n, r.value⟩]) = some config'' := by
          rw [perform_append, done, Option.bind_some, perform_cons,
            assign_eq_some_iff.mpr ⟨d, is, written⟩]
          rfl
        have longer := ih _ _ _ (assigns.concat (by rwa [Nat.zero_add])) performed
        rwa [List.append_assoc] at longer
    · cases r with
      | named key value =>
        have unknown : ¬ s.Knows key := by
          intro knows
          obtain ⟨n, d, _, bears⟩ := exists_bears knows
          exact somewhere ⟨n, .named bears⟩
        exact ⟨_, .unknown rfl assigns done unknown⟩
      | bare value =>
        exact ⟨_, .unexpected rfl assigns done fun n fills => somewhere ⟨n, .bare fills⟩⟩

end Runs

section Answers

variable {config config' : γ} {text : String} {a : Applied γ}

theorem Answers.apply_eq (answers : s.Answers config text a) : s.apply config text = a := by
  unfold apply
  cases answers with
  | clash shared => rw [clash?_of_shared shared]
  | unterminated distinct odd =>
    rw [clash?_of_distinct distinct, tokenize?_eq_none_iff.mpr odd]
  | ended distinct even cut ends =>
    rw [clash?_of_distinct distinct, cut]
    exact ends.applyTokens_eq distinct

theorem exists_answers (s : Schema γ) (config : γ) (text : String) :
    ∃ a, s.Answers config text a := by
  rcases s.clash?_positional with ⟨_, distinct⟩ | ⟨p, d, e, _, shared⟩
  · cases cut : tokenize? text with
    | none => exact ⟨_, .unterminated distinct (tokenize?_eq_none_iff.mp cut)⟩
    | some tokens =>
      obtain ⟨a, ends⟩ := s.exists_ends config (tokens.map s.role)
      exact ⟨a, .ended distinct (even_of_tokenize? cut) cut ends⟩
  · exact ⟨_, .clash shared⟩

/-- What comes of an application. -/
theorem apply_eq_iff_answers : s.apply config text = a ↔ s.Answers config text a := by
  constructor
  · rintro rfl
    obtain ⟨a, answers⟩ := s.exists_answers config text
    exact answers.apply_eq ▸ answers
  · exact Answers.apply_eq

def doubled : Schema Record :=
  (((empty.option "a" (Record.write "a" .string)).atPosition 0).option "a"
    (Record.write "a" .string)).require

/-- Options declared under one key count as one: a required option that no value went to is not
missed if a value went to another option with its key. -/
theorem doubled_complete : ¬ ∀ (s : Schema Record) (config config' : Record) (text : String)
    (tokens : List Token) (jobs : List Assignment) (n : Nat) (d : Decl Record),
    s.Distinct → tokenize? text = some tokens → s.Assigns 0 (tokens.map s.role) jobs →
      s.perform config jobs = some config' → s.decls[n]? = some d → d.required = true →
      (∀ job ∈ jobs, job.option ≠ n) →
      (∀ m < n, ∀ e, s.decls[m]? = some e → e.required = true → ∃ job ∈ jobs, job.option = m) →
        s.apply config text = ⟨config', some (.missingRequired d.key)⟩ := by
  intro reported
  have distinct : doubled.Distinct := by
    intro p
    cases p with
    | zero => exact Nat.le_refl 1
    | succ p => exact Nat.zero_le 1
  have cut : tokenize? "x" = some [⟨none, .equals, "x"⟩] := by decide
  have first : doubled.Fills 0 0 := ⟨_, 0, rfl, rfl, rfl⟩
  have assigns : doubled.Assigns 0 [.bare "x"] [⟨0, "x"⟩] := .cons (.bare first) .nil
  have given : doubled.given [⟨0, "x"⟩] = ["a"] := rfl
  have complete : doubled.Ends .empty [.bare "x"] ⟨_, none⟩ :=
    .complete assigns rfl (by rw [given]; decide)
  have answer := reported doubled .empty _ "x" _ _ 1 _ distinct cut assigns rfl rfl rfl
    (by decide) (by decide)
  rw [(Answers.ended distinct (by decide) cut complete).apply_eq] at answer
  cases answer

/-- An application is complete if every value finds its option and is taken, and none is missing. -/
theorem bind_eq_ok_iff : s.bind config text = .ok config' ↔
    s.Distinct ∧ ∃ tokens jobs, tokenize? text = some tokens ∧
      s.Assigns 0 (tokens.map s.role) jobs ∧ s.perform config jobs = some config' ∧
      ∀ d ∈ s.decls, d.required = true → d.key ∈ s.given jobs := by
  constructor
  · intro bound
    obtain ⟨⟨after, stopped⟩, answers⟩ := s.exists_answers config text
    rw [bind, answers.apply_eq] at bound
    cases stopped with
    | some e => cases bound
    | none =>
      cases bound
      cases answers with
      | ended distinct even cut ends =>
        cases ends with
        | complete assigns done all => exact ⟨distinct, _, _, cut, assigns, done, all⟩
  · rintro ⟨distinct, tokens, jobs, cut, assigns, done, all⟩
    have answers : s.Answers config text ⟨config', none⟩ :=
      .ended distinct (even_of_tokenize? cut) cut (.complete assigns done all)
    rw [bind, answers.apply_eq]

end Answers

end Schema

end Cuescript.Options
