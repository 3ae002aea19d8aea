import Cuescript.Text.Blank
import Mathlib.Data.List.TakeWhile

/-!
Runs of characters of one kind. A text is taken apart where such a run ends; the run is the longest
one if no character of the kind follows. Main statements: what is taken off is the run and what is
left is the rest, trimming leaves a text alone that neither begins nor ends with a blank, and a
property of all blanks can be checked one by one.
-/
namespace Cuescript.Text

def Stops (p : Char → Bool) (cs : List Char) : Prop := ∀ c ∈ cs.head?, p c = false

variable {p : Char → Bool} {run rest cs : List Char}

theorem stops_nil (p : Char → Bool) : Stops p [] := by simp [Stops]

theorem stops_cons {c : Char} : Stops p (c :: cs) ↔ p c = false := by simp [Stops]

theorem Stops.append (one : Stops p run) (other : Stops p rest) : Stops p (run ++ rest) := by
  cases run with
  | nil => exact other
  | cons c run => exact stops_cons.mpr (stops_cons.mp one)

theorem Stops.append_of_ne_nil (one : Stops p run) (some : run ≠ []) : Stops p (run ++ rest) := by
  cases run with
  | nil => exact absurd rfl some
  | cons c run => exact stops_cons.mpr (stops_cons.mp one)

theorem Stops.takeWhile (stops : Stops p rest) : rest.takeWhile p = [] := by
  cases rest with
  | nil => rfl
  | cons c cs => simp [stops_cons.mp stops]

theorem Stops.dropWhile (stops : Stops p rest) : rest.dropWhile p = rest := by
  cases rest with
  | nil => rfl
  | cons c cs => simp [stops_cons.mp stops]

theorem takeWhile_run (inside : ∀ c ∈ run, p c = true) (stops : Stops p rest) :
    (run ++ rest).takeWhile p = run := by
  rw [List.takeWhile_append_of_pos inside, stops.takeWhile, List.append_nil]

theorem dropWhile_run (inside : ∀ c ∈ run, p c = true) (stops : Stops p rest) :
    (run ++ rest).dropWhile p = rest := by
  rw [List.dropWhile_append_of_pos inside, stops.dropWhile]

theorem exists_run (p : Char → Bool) (cs : List Char) :
    ∃ run rest, cs = run ++ rest ∧ (∀ c ∈ run, p c = true) ∧ Stops p rest := by
  refine ⟨cs.takeWhile p, cs.dropWhile p, List.takeWhile_append_dropWhile.symm, ?_, ?_⟩
  · intro c member
    exact (List.all_eq_true.mp (List.all_takeWhile (l := cs) (p := p))) c member
  · intro c first
    have stop := List.head?_dropWhile_not p cs
    rw [first] at stop
    exact stop

def blankNumbers : List Nat :=
  [9, 10, 11, 12, 13, 0x20, 0x85, 0xA0, 0x1680, 0x2000, 0x2001, 0x2002, 0x2003, 0x2004, 0x2005,
    0x2006, 0x2007, 0x2008, 0x2009, 0x200A, 0x2028, 0x2029, 0x202F, 0x205F, 0x3000]

theorem mem_blankNumbers {c : Char} (blank : isBlank c = true) : c.toNat ∈ blankNumbers := by
  simp only [isBlank, Bool.or_eq_true, Bool.and_eq_true, decide_eq_true_eq,
    beq_iff_eq] at blank
  simp only [blankNumbers, List.mem_cons, List.not_mem_nil, or_false]
  omega

theorem blank_forall {P : Char → Prop} (holds : ∀ n ∈ blankNumbers, P (Char.ofNat n)) {c : Char}
    (blank : isBlank c = true) : P c := by
  have here := holds c.toNat (mem_blankNumbers blank)
  rwa [Char.ofNat_toNat] at here

theorem head?_trim (cs : List Char) : (trim cs).head? = (trimFront cs).head? := by
  unfold trim
  cases is : trimFront cs with
  | nil => rfl
  | cons c rest =>
    have solid := head_trimFront is
    simp only [trimBack, trimFront, List.reverse_cons, List.dropWhile_append]
    split <;> simp [solid]

theorem trim_of_stops (front : Stops isBlank cs) (back : Stops isBlank cs.reverse) :
    trim cs = cs := by
  unfold trim trimBack trimFront
  rw [front.dropWhile, back.dropWhile, List.reverse_reverse]

theorem stops_trimFront (cs : List Char) : Stops isBlank (trimFront cs) := by
  intro c first
  obtain ⟨rest, is⟩ := List.head?_eq_some_iff.mp first
  exact head_trimFront is

theorem stops_trim (cs : List Char) : Stops isBlank (trim cs) := by
  intro c first
  rw [head?_trim] at first
  exact stops_trimFront cs c first

theorem stops_reverse_trim (cs : List Char) : Stops isBlank (trim cs).reverse := by
  rw [trim, trimBack, List.reverse_reverse]
  exact stops_trimFront _

theorem trim_eq_nil_iff : trim cs = [] ↔ ∀ c ∈ cs, isBlank c = true := by
  have front : trimFront cs = [] ↔ ∀ c ∈ cs, isBlank c = true := List.dropWhile_eq_nil_iff
  rw [← front]
  constructor
  · intro none
    have head := head?_trim cs
    rw [none] at head
    exact List.head?_eq_none_iff.mp head.symm
  · intro none
    rw [trim, none]
    rfl

theorem trim_trim (cs : List Char) : trim (trim cs) = trim cs :=
  trim_of_stops (stops_trim cs) (stops_reverse_trim cs)

theorem mem_of_mem_trim {c : Char} (member : c ∈ trim cs) : c ∈ cs := by
  rw [trim, trimBack, List.mem_reverse] at member
  have inside := List.mem_reverse.mp ((List.dropWhile_sublist _).subset member)
  exact (List.dropWhile_sublist _).subset inside

theorem trim_blanks {front back : List Char} (before : ∀ c ∈ front, isBlank c = true)
    (behind : ∀ c ∈ back, isBlank c = true) : trim (front ++ (cs ++ back)) = trim cs := by
  have ends : ∀ ds, trimBack (ds ++ back) = trimBack ds := fun ds => by
    rw [trimBack, trimBack, trimFront, trimFront, List.reverse_append,
      List.dropWhile_append_of_pos fun c member => behind c (List.mem_reverse.mp member)]
  have nothing : back.dropWhile isBlank = [] := by
    rw [← List.append_nil back, dropWhile_run behind (stops_nil _)]
  rw [trim, trim, trimFront, List.dropWhile_append_of_pos before, List.dropWhile_append, ← trimFront]
  split
  · rename_i none
    rw [List.isEmpty_iff.mp none, nothing]
  · exact ends _

end Cuescript.Text
