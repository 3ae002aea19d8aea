import Cuescript.Script.FileTree
import Cuescript.Proofs.Text.Runs
import Mathlib.Data.List.Nodup

/-!
The script files of a directory. Main statement: they are the files that stand directly in it and
whose names have a stem and one of the two extensions, each of them once, in order of their names;
there is only one such list.
-/
namespace Cuescript.FileTree

/-- An extension has no point in it, and something stands before the point in front of it. -/
theorem extension?_eq_some_iff {name e : String} :
    extension? name = some e ↔
      '.' ∉ e.toList ∧ ∃ stem ≠ [], name.toList = stem ++ '.' :: e.toList := by
  have inside {cs : List Char} : (∀ c ∈ cs, (c != '.') = true) ↔ '.' ∉ cs := by
    simp only [bne_iff_ne]
    exact ⟨fun all member => all '.' member rfl, fun none c member is => none (is ▸ member)⟩
  constructor
  · intro found
    obtain ⟨run, rest, whole, plain, stops⟩ := Text.exists_run (· != '.') name.toList.reverse
    simp only [extension?, whole, Text.takeWhile_run plain stops] at found
    split at found
    · cases found
    · rename_i long
      cases found
      rw [String.toList_ofList, List.mem_reverse]
      refine ⟨inside.mp plain, ?_⟩
      cases rest with
      | nil => simp at long
      | cons c stem =>
        have point : c = '.' := by simpa using Text.stops_cons.mp stops
        have some : stem ≠ [] := by
          rintro rfl
          simp at long
        refine ⟨stem.reverse, by simpa using some, ?_⟩
        rw [← List.reverse_reverse name.toList, whole, point]
        simp
  · rintro ⟨plain, stem, some, whole⟩
    have back : name.toList.reverse = e.toList.reverse ++ '.' :: stem.reverse := by simp [whole]
    have run : name.toList.reverse.takeWhile (· != '.') = e.toList.reverse := by
      rw [back]
      exact Text.takeWhile_run (inside.mpr (by simpa using plain)) (Text.stops_cons.mpr rfl)
    have long : 0 < stem.length := List.length_pos_iff.mpr some
    simp only [extension?, run, List.reverse_reverse, String.ofList_toList]
    refine if_neg ?_
    simp [back]
    omega

def ScriptName (name : String) : Prop :=
  ∃ stem ≠ "", name = stem ++ ".yaml" ∨ name = stem ++ ".yml"

theorem extension?_iff_stem {name e : String} (plain : '.' ∉ e.toList) :
    extension? name = some e ↔ ∃ stem ≠ "", name = stem ++ ("." ++ e) := by
  rw [extension?_eq_some_iff, and_iff_right plain]
  constructor
  · rintro ⟨stem, some, whole⟩
    refine ⟨String.ofList stem, fun none => some ?_, ?_⟩
    · rw [← String.toList_ofList (l := stem), none]
      rfl
    · simp [← String.toList_inj, whole]
  · rintro ⟨stem, some, rfl⟩
    exact ⟨stem.toList, fun none => some (String.toList_inj.mp none), by simp⟩

theorem isScriptName_iff {name : String} : isScriptName name = true ↔ ScriptName name := by
  have either : isScriptName name = true ↔
      extension? name = some "yaml" ∨ extension? name = some "yml" := by
    unfold isScriptName
    cases extension? name <;> simp
  rw [either, extension?_iff_stem (by decide), extension?_iff_stem (by decide), ← exists_or]
  simp only [← and_or_left]
  exact Iff.rfl

theorem nameIn?_eq_some_iff {directory place : List String} {name : String} :
    nameIn? directory place = some name ↔ place = directory ++ [name] := by
  constructor
  · intro found
    unfold nameIn? at found
    split at found
    · rename_i other last
      obtain ⟨before, rfl⟩ := List.getLast?_eq_some_iff.mp last
      split at found
      · rename_i here
        cases found
        rw [← here, List.dropLast_concat]
      · cases found
    · cases found
  · rintro rfl
    simp [nameIn?]

def Distinct (t : FileTree) : Prop := (t.files.map Prod.fst).Nodup

variable {t : FileTree} {directory : List String} {files others : List (String × Option String)}

/-- The files are those that stand directly in the directory and have the name of a script file. -/
structure ScriptFilesIn (t : FileTree) (directory : List String)
    (files : List (String × Option String)) : Prop where
  mem : ∀ name text, (name, text) ∈ files ↔ ScriptName name ∧ (directory ++ [name], text) ∈ t.files
  sorted : files.Pairwise fun f g => f.1 ≤ g.1
  once : t.Distinct → (files.map Prod.fst).Nodup

namespace ScriptFilesIn

theorem ascending (listed : t.ScriptFilesIn directory files) (distinct : t.Distinct) :
    files.Pairwise fun f g => f.1 < g.1 :=
  listed.sorted.imp₂ (fun _ _ le ne => Std.lt_of_le_of_ne le ne)
    (List.pairwise_map.mp (listed.once distinct))

/-- In what order the tree gives its files has no bearing on how they are listed. -/
theorem unique (distinct : t.Distinct) (listed : t.ScriptFilesIn directory files)
    (again : t.ScriptFilesIn directory others) : others = files := by
  have perm : others.Perm files :=
    (List.perm_ext_iff_of_nodup (List.Nodup.of_map Prod.fst (again.once distinct))
      (List.Nodup.of_map Prod.fst (listed.once distinct))).mpr
        fun f => (again.mem f.1 f.2).trans (listed.mem f.1 f.2).symm
  refine List.Perm.eq_of_pairwise (fun f g _ _ less more => ?_) (again.ascending distinct)
    (listed.ascending distinct) perm
  exact absurd (String.lt_trans less more) (String.lt_irrefl f.1)

end ScriptFilesIn

def scriptFileIn? (directory : List String) (f : List String × Option String) :
    Option (String × Option String) :=
  (nameIn? directory f.1).bind fun name => if isScriptName name then some (name, f.2) else none

theorem scriptFileIn?_eq_some_iff {f : List String × Option String} {g : String × Option String} :
    scriptFileIn? directory f = some g ↔ ScriptName g.1 ∧ f = (directory ++ [g.1], g.2) := by
  unfold scriptFileIn?
  rw [Option.bind_eq_some_iff]
  constructor
  · rintro ⟨name, is, here⟩
    split at here
    · rename_i script
      cases here
      exact ⟨isScriptName_iff.mp script, Prod.ext (nameIn?_eq_some_iff.mp is) rfl⟩
    · cases here
  · rintro ⟨script, rfl⟩
    exact ⟨g.1, nameIn?_eq_some_iff.mpr rfl, if_pos (isScriptName_iff.mpr script)⟩

theorem scriptFilesIn (t : FileTree) (directory : List String) :
    t.ScriptFilesIn directory (t.scriptFiles directory) := by
  have perm : (t.scriptFiles directory).Perm (t.files.filterMap (scriptFileIn? directory)) :=
    List.mergeSort_perm ..
  refine ⟨fun name text => ?_, ?_, fun distinct => ?_⟩
  · simp only [perm.mem_iff, List.mem_filterMap, scriptFileIn?_eq_some_iff]
    constructor
    · rintro ⟨f, here, script, rfl⟩
      exact ⟨script, here⟩
    · rintro ⟨script, here⟩
      exact ⟨_, here, script, rfl⟩
  · have sorted : (t.scriptFiles directory).Pairwise fun f g => decide (f.1 ≤ g.1) = true :=
      List.pairwise_mergeSort (fun f g h fg gh => by
          simp only [decide_eq_true_eq] at *
          exact String.le_trans fg gh)
        (fun f g => by simpa using String.le_total f.1 g.1) _
    exact sorted.imp of_decide_eq_true
  · rw [(perm.map Prod.fst).nodup_iff, List.Nodup, List.pairwise_map, List.pairwise_filterMap]
    refine (List.pairwise_map.mp distinct).imp fun {f g} apart f' here g' there same => apart ?_
    rw [(scriptFileIn?_eq_some_iff.mp here).2, (scriptFileIn?_eq_some_iff.mp there).2, same]

end Cuescript.FileTree
