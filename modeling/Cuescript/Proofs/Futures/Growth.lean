import Cuescript.Proofs.Futures.Wiring

/-!
How the wiring of futures grows. A new future gets a way of its own, a join gets its parts one
after the other, and the future of a task takes over another one in the end. Main statement: each
of these keeps everything as the wiring says.
-/
namespace Cuescript.Futures

variable {ν : Type} {s : Futures ν} {w : Wiring} {g h : FutureId} {l : Listener ν}

theorem value?_append (s : Futures ν) (v : Option Outcome) (joins : List Join) (h : FutureId) :
    Futures.value? { s with values := s.values ++ [v], joins := joins } h =
      if h.number = s.values.length then v else s.value? h := by
  rw [value?, value?]
  rcases Nat.lt_trichotomy h.number s.values.length with inside | last | outside
  · rw [List.getElem?_append_left inside, if_neg (Nat.ne_of_lt inside)]
  · rw [last]
    simp
  · rw [if_neg (Nat.ne_of_gt outside), List.getElem?_eq_none (Nat.le_of_lt outside)]
    simp [List.getElem?_eq_none (show (s.values ++ [v]).length ≤ h.number by simp; omega)]

theorem Wired.append (wired : s.Wired w []) {way : Way} {v : Option Outcome} {joins : List Join}
    (sources : ∀ h ∈ way.sources, h.number < w.length)
    (follows : Follows { s with values := s.values ++ [v], joins := s.joins ++ joins } []
      ⟨w.length⟩ way) :
    Wired { s with values := s.values ++ [v], joins := s.joins ++ joins } (w ++ [way]) [] := by
  have value : ∀ h : FutureId, h.number < w.length →
      Futures.value? { s with values := s.values ++ [v], joins := s.joins ++ joins } h =
        s.value? h := by
    intro h inside
    rw [value?_append, if_neg (wired.size ▸ Nat.ne_of_lt inside)]
  have old : ∀ {n : Nat} {way' : Way}, (w ++ [way])[n]? = some way' →
      n < w.length ∧ w[n]? = some way' ∨ n = w.length ∧ way = way' := by
    intro n way' is
    rcases Nat.lt_or_ge n w.length with inside | beyond
    · rw [List.getElem?_append_left inside] at is
      exact .inl ⟨inside, is⟩
    · have bound := (List.getElem?_eq_some_iff.mp is).1
      rw [List.length_append, List.length_singleton] at bound
      obtain rfl : n = w.length := by omega
      exact .inr ⟨rfl, by simpa using is⟩
  refine ⟨?_, ?_, ?_, ?_, nofun⟩
  · rw [List.length_append, List.length_append, wired.size]
    rfl
  · intro g way' _ is
    rcases old is with ⟨inside, is⟩ | ⟨number, rfl⟩
    · refine Follows.congr (wired.follows g way' trivial is) (value g inside) ?_
        (fun _ => id) (fun _ => id) fun j J join => ?_
      · exact fun h source => value h (wired.sources _ _ is h source)
      · rw [List.getElem?_append_left (List.getElem?_eq_some_iff.mp join).1]
        exact join
    · obtain rfl : g = ⟨w.length⟩ := congrArg FutureId.mk number
      exact follows
  · intro n way' is h source
    rw [List.length_append]
    apply Nat.lt_add_right
    rcases old is with ⟨_, is⟩ | ⟨_, rfl⟩
    · exact wired.sources n way' is h source
    · exact sources h source
  · intro h l waits
    obtain ⟨known, none, serves⟩ := wired.waiting h l waits
    refine ⟨?_, (value h known).trans none, serves.append [way]⟩
    rw [List.length_append]
    exact Nat.lt_add_right _ known

theorem Wired.completed (wired : s.Wired w []) (o : Outcome) :
    (s.completed o).2.Wired (w ++ [.given o]) [] := by
  have added : Wired { s with values := s.values ++ [some o], joins := s.joins ++ [] }
      (w ++ [.given o]) [] := by
    apply wired.append (by simp [Way.sources])
    rw [Follows, value?_append, if_pos wired.size]
  rw [List.append_nil] at added
  exact added

theorem Wired.pending (wired : s.Wired w []) : s.pending.2.Wired (w ++ [.task]) [] := by
  have added : Wired { s with values := s.values ++ [none], joins := s.joins ++ [] }
      (w ++ [.task]) [] := by
    apply wired.append (by simp [Way.sources])
    rw [Follows, value?_append, if_pos wired.size]
  rw [List.append_nil] at added
  exact added

/-- A listener is registered that the wiring asks for from now on, for the sake of a future `g`. -/
theorem Wired.onComplete {w' : Wiring} {way : Way} (wired : s.Wired w [])
    (size : w'.length = w.length) (known : h.number < w.length)
    (others : ∀ n, n ≠ g.number → w'[n]? = w[n]?) (own : w'[g.number]? = some way)
    (sources : ∀ f ∈ way.sources, f.number < w.length)
    (kept : ∀ f l, w.Serves (ν := ν) f l → w'.Serves f l) (new : w'.Serves h l)
    (follows : ∀ (s' : Futures ν) due, s'.values = s.values → s'.joins = s.joins →
      (∀ e ∈ s.waiting, e ∈ s'.waiting) → s'.Carried due h l none → s'.Follows due g way) :
    (s.onComplete h l).Wired w' [] := by
  -- Whether the listener waits or is called at once, the other futures are as before.
  have rewired : ∀ (s' : Futures ν) due, s'.values = s.values → s'.joins = s.joins →
      (∀ e ∈ s.waiting, e ∈ s'.waiting) → s'.Carried due h l none →
      (∀ e ∈ s'.waiting, e ∈ s.waiting ∨ e = (h, l) ∧ s.value? h = none) →
      (∀ c ∈ due, c.1 = l ∧ s.value? h = some c.2) → s'.Wired w' due := by
    intro s' due values joins more carried fewer calls
    have value : ∀ f, s'.value? f = s.value? f := fun f => by rw [value?, value?, values]
    refine ⟨?_, ?_, ?_, ?_, ?_⟩
    · rw [size, values, wired.size]
    · intro f way' _ is
      by_cases same : f = g
      · subst same
        obtain rfl := Option.some.inj (own.symm.trans is)
        exact follows s' due values joins more carried
      · rw [others _ fun number => same (congrArg FutureId.mk number)] at is
        refine Follows.congr (wired.follows f way' trivial is) (value f) (fun _ _ => value _) more
          (List.forall_mem_nil _) fun j J join => ?_
        rw [joins]
        exact join
    · intro n way' is f source
      rw [size]
      by_cases same : n = g.number
      · subst same
        obtain rfl := Option.some.inj (own.symm.trans is)
        exact sources f source
      · rw [others n same] at is
        exact wired.sources n way' is f source
    · intro f l' waits
      rw [size, value]
      rcases fewer _ waits with before | ⟨same, none⟩
      · obtain ⟨inside, none, serves⟩ := wired.waiting f l' before
        exact ⟨inside, none, kept f l' serves⟩
      · obtain ⟨rfl, rfl⟩ := Prod.mk.inj same
        exact ⟨known, none, new⟩
    · intro l' o coming
      obtain ⟨rfl, some⟩ := calls _ coming
      exact ⟨h, (value h).trans some, new⟩
  rw [Futures.onComplete]
  cases value : s.value? h with
  | some o =>
    apply Wired.settle
    refine rewired s _ rfl rfl (fun _ => id) ?_ (fun _ => .inl) ?_
    · rw [Carried, value]
      exact .inr ⟨rfl, List.mem_singleton_self _⟩
    · intro c member
      obtain rfl := List.mem_singleton.mp member
      exact ⟨rfl, value⟩
  | none =>
    dsimp only
    refine rewired _ [] rfl rfl (fun _ => List.mem_append_left _) ?_ ?_ (List.forall_mem_nil _)
    · have still : Futures.value? { s with waiting := s.waiting ++ [(h, l)] } h = none := value
      rw [Carried, still]
      exact ⟨rfl, List.mem_append_right _ (List.mem_singleton_self _)⟩
    · intro e member
      rcases List.mem_append.mp member with before | last
      · exact .inl before
      · exact .inr ⟨List.mem_singleton.mp last, value⟩

theorem Wired.note (wired : s.Wired w []) (known : h.number < w.length) (label : ν) :
    (s.onComplete h (.note label)).Wired w [] := by
  rw [Futures.onComplete]
  cases value : s.value? h with
  | some o =>
    refine Wired.settle { wired with follows := fun g way on is => ?_, due := fun l x coming => ?_ }
    · exact (wired.follows g way on is).congr rfl (fun _ _ => rfl) (fun _ => id)
        (List.forall_mem_nil _) fun _ _ => id
    · obtain ⟨rfl, rfl⟩ := Prod.mk.inj (List.mem_singleton.mp coming)
      exact ⟨h, value, trivial⟩
  | none =>
    refine ⟨wired.size, fun g way on is => ?_, wired.sources, fun f l waits => ?_, wired.due⟩
    · exact (wired.follows g way on is).congr rfl (fun _ _ => rfl)
        (fun _ => List.mem_append_left _) (fun _ => id) fun _ _ => id
    · rcases List.mem_append.mp waits with before | last
      · exact wired.waiting f l before
      · obtain ⟨rfl, rfl⟩ := Prod.mk.inj (List.mem_singleton.mp last)
        exact ⟨known, value, trivial⟩

theorem Wired.take (wired : s.Wired w []) : s.takeHeard.2.Wired w [] := by
  refine ⟨wired.size, fun g way on is => ?_, wired.sources, wired.waiting, wired.due⟩
  exact (wired.follows g way on is).congr rfl (fun _ _ => rfl) (fun _ => id) (fun _ => id)
    fun _ _ => id

/-- A task hands over to another future: its own future takes over the outcome of that. -/
theorem Wired.relay (wired : s.Wired w []) (task : w[g.number]? = some .task)
    (known : h.number < w.length) :
    (s.onComplete h (.relay g)).Wired (w.set g.number (.relay h)) [] := by
  have inside := (List.getElem?_eq_some_iff.mp task).1
  have own : (w.set g.number (.relay h))[g.number]? = some (.relay h) :=
    List.getElem?_set_self inside
  have others : ∀ n, n ≠ g.number → (w.set g.number (.relay h))[n]? = w[n]? :=
    fun n apart => List.getElem?_set_ne (Ne.symm apart)
  -- The wiring asked for nothing at `g`.
  have elsewhere : ∀ {n : Nat} {way : Way}, w[n]? = some way → way ≠ .task →
      (w.set g.number (.relay h))[n]? = some way := by
    intro n way is other
    rw [others, is]
    rintro rfl
    exact other (Option.some.inj (is.symm.trans task))
  apply wired.onComplete (List.length_set ..) known others own
  · intro f source
    obtain rfl := List.mem_singleton.mp source
    exact known
  · intro f l serves
    cases l with
    | note label => exact trivial
    | relay g' => exact elsewhere serves nofun
    | fill j k =>
      obtain ⟨g', size, parts, way, part⟩ := serves
      exact ⟨g', size, parts, elsewhere way nofun, part⟩
    | react replies => exact serves
  · exact own
  · intro s' due values _ _ carried
    have pending : s'.value? g = none := by
      rw [value?, values]
      exact wired.follows g _ trivial task
    rw [Follows, pending]
    exact carried

theorem Wired.listen {j size : Nat} {front : List FutureId}
    (wired : s.Wired (w ++ [.join j size front]) []) (known : h.number < w.length) :
    (s.onComplete h (.fill j front.length)).Wired (w ++ [.join j size (front ++ [h])]) [] := by
  have last : ∀ way : Way, (w ++ [way])[w.length]? = some way := fun way => by simp
  have others : ∀ n, n ≠ w.length → ∀ way way' : Way, (w ++ [way])[n]? = (w ++ [way'])[n]? := by
    intro n apart way way'
    rcases Nat.lt_or_gt_of_ne apart with inside | beyond
    · rw [List.getElem?_append_left inside, List.getElem?_append_left inside]
    · rw [List.getElem?_eq_none (by simp; omega), List.getElem?_eq_none (by simp; omega)]
  have extended : ∀ {k : Nat} {f : FutureId}, front[k]? = some f → (front ++ [h])[k]? = some f :=
    fun part => List.getElem?_append_left (List.getElem?_eq_some_iff.mp part).1 ▸ part
  refine wired.onComplete (g := ⟨w.length⟩) (by simp) ?_ (fun n apart => others n apart _ _)
    (last _) ?_ ?_ ?_ ?_
  · rw [List.length_append]
    exact Nat.lt_add_right _ known
  · intro f source
    rcases List.mem_append.mp source with before | new
    · exact wired.sources _ _ (last _) f before
    · obtain rfl := List.mem_singleton.mp new
      rw [List.length_append]
      exact Nat.lt_add_right _ known
  · intro f l serves
    cases l with
    | note label => exact trivial
    | relay g =>
      refine (others _ ?_ _ _).trans serves
      intro same
      have way := (same ▸ last (.join j size front)).symm.trans serves
      cases way
    | fill j' k =>
      obtain ⟨g, size', parts, way, part⟩ := serves
      by_cases same : g.number = w.length
      · rw [same, last] at way
        cases way
        exact ⟨g, size, _, same ▸ last _, extended part⟩
      · exact ⟨g, size', parts, (others _ same _ _).trans way, part⟩
    | react replies => exact serves
  · exact ⟨⟨w.length⟩, size, _, last _, by simp⟩
  · intro s' due values joins more carried
    have value : ∀ f, s'.value? f = s.value? f := fun f => by rw [value?, value?, values]
    obtain ⟨places, filled, result⟩ := wired.follows ⟨w.length⟩ _ trivial (last _)
    refine ⟨places, ⟨joins ▸ filled.join, filled.length, ?_, ?_⟩, (value _).trans result⟩
    · intro k f place part here
      rcases Nat.lt_or_ge k front.length with old | new
      · rw [List.getElem?_append_left old] at part
        exact (filled.arrived k f place part here).congr (value f) (more _) nofun
      · obtain rfl := filled.empty k place new here
        have bound := (List.getElem?_eq_some_iff.mp part).1
        rw [List.length_append, List.length_singleton] at bound
        obtain rfl : k = front.length := by omega
        obtain rfl : h = f := by simpa using part
        exact carried
    · intro k place beyond here
      rw [List.length_append] at beyond
      exact filled.empty k place (Nat.le_of_add_right_le beyond) here

theorem Wired.listenAll {j size : Nat} {front rest : List FutureId}
    (wired : s.Wired (w ++ [.join j size front]) []) (known : ∀ f ∈ rest, f.number < w.length) :
    (s.listenAll j front.length rest).Wired (w ++ [.join j size (front ++ rest)]) [] := by
  induction rest generalizing s front with
  | nil =>
    rw [List.append_nil]
    exact wired
  | cons f rest ih =>
    have each := List.forall_mem_cons.mp known
    have next := ih (wired.listen each.1) each.2
    rw [List.length_append, List.append_assoc] at next
    exact next

theorem Wired.join (wired : s.Wired w []) {f g : FutureId} {rest : List FutureId}
    (known : ∀ h ∈ f :: g :: rest, h.number < w.length) :
    (s.all (f :: g :: rest)).2.Wired
      (w ++ [.join s.joins.length (f :: g :: rest).length (f :: g :: rest)]) [] := by
  have start : Wired { s with
      values := s.values ++ [none]
      joins := s.joins ++ [⟨⟨w.length⟩, List.replicate (f :: g :: rest).length none⟩] }
      (w ++ [.join s.joins.length (f :: g :: rest).length []]) [] := by
    apply wired.append (by simp [Way.sources])
    refine ⟨List.replicate (f :: g :: rest).length none, ⟨?_, List.length_replicate, nofun, ?_⟩, ?_⟩
    · simp
    · intro k place _ here
      exact List.eq_of_mem_replicate (List.mem_of_getElem? here)
    · rw [value?_append, if_pos wired.size]
      simp [Join.result?]
  have joined := start.listenAll known
  rw [wired.size] at joined
  exact joined

end Cuescript.Futures
