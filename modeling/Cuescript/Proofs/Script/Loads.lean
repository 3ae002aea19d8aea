import Cuescript.Proofs.Script.Directories
import Cuescript.Script.Loader
import Mathlib.Data.List.Forall2
import Mathlib.Data.List.Induction

/-!
Scripts loaded from a directory. Files are read in order, and the ids of their scripts are noted on
the way. Main statement: all files load together exactly if each of them loads and no id occurs
twice, and then all their scripts are there in order; else the error is that of the first file that
does not load, or of the first id that occurred before, whichever comes first.
-/
namespace Cuescript.ScriptLoader

/-- The scripts of a file: none if it is blank, and else those that its text is read as. -/
inductive Holds (decode : Decoding) : String × Option String → List ScriptConfig → Prop
  | blank {path text : String} (blank : ∀ c ∈ text.toList, Text.isBlank c = true) :
      Holds decode (path, some text) []
  | decoded {path text : String} {scripts : List ScriptConfig}
      (written : ∃ c ∈ text.toList, Text.isBlank c = false)
      (decodes : decode path text = some scripts) : Holds decode (path, some text) scripts

/-- Why a file does not load: it has no text, or its text does not say what scripts it holds. -/
inductive Fails (decode : Decoding) : String × Option String → ConfigError → Prop
  | unreadable {path : String} : Fails decode (path, none) (.unreadable (FileTree.shown path))
  | malformed {path text : String} (written : ∃ c ∈ text.toList, Text.isBlank c = false)
      (decodes : decode path text = none) :
      Fails decode (path, some text) (.malformed (FileTree.shown path))

def ids (scripts : List ScriptConfig) : List String := scripts.map (·.id)

/-- Each of the files loads, and no id occurs twice in all their scripts. -/
structure Gathers (decode : Decoding) (files : List (String × Option String))
    (scripts : List ScriptConfig) : Prop where
  parts : ∃ parts, List.Forall₂ (Holds decode) files parts ∧ scripts = parts.flatten
  distinct : (ids scripts).Nodup

/-- The first of the new scripts with an id that occurred before has this one. -/
def Repeats (known new : List ScriptConfig) (id : String) : Prop :=
  ∃ earlier c later, new = earlier ++ c :: later ∧ c.id = id ∧
    id ∈ ids (known ++ earlier) ∧ (ids (known ++ earlier)).Nodup

inductive Halts (decode : Decoding) (known : List ScriptConfig) (file : String × Option String) :
    ConfigError → Prop
  | unloaded {e : ConfigError} (fails : Fails decode file e) : Halts decode known file e
  | repeated {new : List ScriptConfig} {id : String} (holds : Holds decode file new)
      (repeats : Repeats known new id) : Halts decode known file (.duplicateId id file.1)

def Stops (decode : Decoding) (files : List (String × Option String)) (e : ConfigError) : Prop :=
  ∃ before file after scripts, files = before ++ file :: after ∧ Gathers decode before scripts ∧
    Halts decode scripts file e

variable {decode : Decoding} {file : String × Option String}
  {files before after : List (String × Option String)} {known new scripts : List ScriptConfig}
  {path id : String} {e : ConfigError}

/-! One file. -/

theorem loadFile_of_blank {text : String} (blank : ∀ c ∈ text.toList, Text.isBlank c = true) :
    loadFile decode (path, some text) = .ok [] :=
  if_pos (List.isEmpty_iff.mpr (Text.trim_eq_nil_iff.mpr blank))

theorem loadFile_of_written {text : String} (written : ∃ c ∈ text.toList, Text.isBlank c = false) :
    loadFile decode (path, some text) =
      match decode path text with
      | some scripts => .ok scripts
      | none => .error (.malformed (FileTree.shown path)) := by
  refine if_neg fun none => ?_
  obtain ⟨c, member, solid⟩ := written
  rw [Text.trim_eq_nil_iff.mp (List.isEmpty_iff.mp none) c member] at solid
  cases solid

theorem loadFile_of_holds (holds : Holds decode file scripts) :
    loadFile decode file = .ok scripts := by
  cases holds with
  | blank blank => exact loadFile_of_blank blank
  | decoded written decodes => rw [loadFile_of_written written, decodes]

theorem loadFile_of_fails (fails : Fails decode file e) : loadFile decode file = .error e := by
  cases fails with
  | unreadable => rfl
  | malformed written decodes => rw [loadFile_of_written written, decodes]

theorem holds_or_fails (decode : Decoding) (file : String × Option String) :
    (∃ scripts, Holds decode file scripts) ∨ ∃ e, Fails decode file e := by
  obtain ⟨path, content⟩ := file
  cases content with
  | none => exact .inr ⟨_, .unreadable⟩
  | some text =>
    by_cases blank : ∀ c ∈ text.toList, Text.isBlank c = true
    · exact .inl ⟨[], .blank blank⟩
    · have written : ∃ c ∈ text.toList, Text.isBlank c = false := by simpa using blank
      cases decodes : decode path text with
      | none => exact .inr ⟨_, .malformed written decodes⟩
      | some scripts => exact .inl ⟨scripts, .decoded written decodes⟩

/-! The scripts of one file, added to those before. -/

theorem nodup_ids_concat {c : ScriptConfig} :
    (ids (known ++ [c])).Nodup ↔ (ids known).Nodup ∧ c.id ∉ ids known := by
  have last : ids (known ++ [c]) = ids known ++ [c.id] := List.map_append
  rw [last, (List.perm_append_singleton c.id (ids known)).nodup_iff, List.nodup_cons, and_comm]

theorem addScripts_old {c : ScriptConfig} (old : c.id ∈ ids known) (rest : List ScriptConfig) :
    addScripts path known (c :: rest) = .error (.duplicateId c.id path) := by
  rw [addScripts, if_pos]
  simpa [ids] using old

theorem addScripts_new {c : ScriptConfig} (new : c.id ∉ ids known) (rest : List ScriptConfig) :
    addScripts path known (c :: rest) = addScripts path (known ++ [c]) rest := by
  rw [addScripts, if_neg]
  simpa [ids] using new

theorem nodup_ids_left (distinct : (ids (known ++ new)).Nodup) : (ids known).Nodup :=
  distinct.sublist ((List.sublist_append_left known new).map _)

theorem addScripts_distinct (distinct : (ids (known ++ new)).Nodup) (rest : List ScriptConfig) :
    addScripts path known (new ++ rest) = addScripts path (known ++ new) rest := by
  induction new generalizing known with
  | nil => rw [List.append_nil, List.nil_append]
  | cons c tail ih =>
    rw [List.append_cons] at distinct ⊢
    have fresh := (nodup_ids_concat.mp (nodup_ids_left distinct)).2
    rw [List.cons_append, addScripts_new fresh, ih distinct]

theorem addScripts_repeats (repeats : Repeats known new id) :
    addScripts path known new = .error (.duplicateId id path) := by
  obtain ⟨earlier, c, later, rfl, rfl, old, distinct⟩ := repeats
  rw [addScripts_distinct distinct, addScripts_old old]

theorem distinct_or_repeats (distinct : (ids known).Nodup) (new : List ScriptConfig) :
    (ids (known ++ new)).Nodup ∨ ∃ id, Repeats known new id := by
  induction new using List.reverseRecOn with
  | nil =>
    rw [List.append_nil]
    exact .inl distinct
  | append_singleton new c ih =>
    rcases ih with distinct | ⟨id, earlier, d, later, rfl, repeats⟩
    · by_cases repeated : c.id ∈ ids (known ++ new)
      · exact .inr ⟨c.id, new, c, [], rfl, rfl, repeated, distinct⟩
      · rw [← List.append_assoc, nodup_ids_concat]
        exact .inl ⟨distinct, repeated⟩
    · exact .inr ⟨id, earlier, d, later ++ [c], by simp, repeats⟩

/-! Files in order. -/

theorem Gathers.nil (decode : Decoding) : Gathers decode [] [] := ⟨⟨[], .nil, rfl⟩, .nil⟩

theorem Gathers.concat (gathers : Gathers decode before scripts) (holds : Holds decode file new)
    (distinct : (ids (scripts ++ new)).Nodup) :
    Gathers decode (before ++ [file]) (scripts ++ new) := by
  obtain ⟨parts, each, rfl⟩ := gathers.parts
  exact ⟨⟨parts ++ [new], List.rel_append each (.cons holds .nil), by simp⟩, distinct⟩

theorem loadFiles_append {parts : List (List ScriptConfig)}
    (each : List.Forall₂ (Holds decode) before parts)
    (distinct : (ids (known ++ parts.flatten)).Nodup) (after : List (String × Option String)) :
    loadFiles decode known (before ++ after) =
      loadFiles decode (known ++ parts.flatten) after := by
  induction each generalizing known with
  | nil => rw [List.flatten_nil, List.append_nil, List.nil_append]
  | @cons file new before parts holds _ ih =>
    rw [List.flatten_cons, ← List.append_assoc] at distinct ⊢
    have added : addScripts file.1 known new = .ok (known ++ new) := by
      have all : addScripts file.1 known (new ++ []) = addScripts file.1 (known ++ new) [] :=
        addScripts_distinct (nodup_ids_left distinct) []
      rwa [List.append_nil] at all
    rw [List.cons_append, loadFiles, loadFile_of_holds holds]
    simp only [added, ih distinct]

theorem loadFiles_gathers (gathers : Gathers decode before scripts)
    (after : List (String × Option String)) :
    loadFiles decode [] (before ++ after) = loadFiles decode scripts after := by
  obtain ⟨⟨parts, each, rfl⟩, distinct⟩ := gathers
  exact loadFiles_append each distinct after

theorem loadFiles_of_gathers (gathers : Gathers decode files scripts) :
    loadFiles decode [] files = .ok scripts := by
  have all := loadFiles_gathers gathers []
  rwa [List.append_nil] at all

theorem loadFiles_of_halts (halts : Halts decode known file e)
    (rest : List (String × Option String)) : loadFiles decode known (file :: rest) = .error e := by
  cases halts with
  | unloaded fails => rw [loadFiles, loadFile_of_fails fails]
  | repeated holds repeats =>
    rw [loadFiles, loadFile_of_holds holds]
    simp only [addScripts_repeats repeats]

theorem loadFiles_of_stops (stops : Stops decode files e) :
    loadFiles decode [] files = .error e := by
  obtain ⟨before, file, after, scripts, rfl, gathers, halts⟩ := stops
  rw [loadFiles_gathers gathers, loadFiles_of_halts halts]

theorem Stops.append (stops : Stops decode before e) (after : List (String × Option String)) :
    Stops decode (before ++ after) e := by
  obtain ⟨earlier, file, later, scripts, rfl, fault⟩ := stops
  exact ⟨earlier, file, later ++ after, scripts, by simp, fault⟩

/-- A file whose scripts have new ids goes with those before it. -/
theorem Gathers.concat_or_halts (gathers : Gathers decode before scripts)
    (file : String × Option String) :
    (∃ all, Gathers decode (before ++ [file]) all) ∨ ∃ e, Halts decode scripts file e := by
  rcases holds_or_fails decode file with ⟨new, holds⟩ | ⟨e, fails⟩
  · rcases distinct_or_repeats gathers.distinct new with distinct | ⟨id, repeats⟩
    · exact .inl ⟨_, gathers.concat holds distinct⟩
    · exact .inr ⟨_, .repeated holds repeats⟩
  · exact .inr ⟨e, .unloaded fails⟩

theorem gathers_or_stops (decode : Decoding) (files : List (String × Option String)) :
    (∃ scripts, Gathers decode files scripts) ∨ ∃ e, Stops decode files e := by
  -- by the last file: the first fault of the files before it stays the first
  induction files using List.reverseRecOn with
  | nil => exact .inl ⟨[], .nil decode⟩
  | append_singleton before file ih =>
    rcases ih with ⟨scripts, gathers⟩ | ⟨e, stops⟩
    · rcases gathers.concat_or_halts file with together | ⟨e, halts⟩
      · exact .inl together
      · exact .inr ⟨e, before, file, [], scripts, rfl, gathers, halts⟩
    · exact .inr ⟨e, stops.append [file]⟩

theorem loadFiles_ok_iff :
    loadFiles decode [] files = .ok scripts ↔ Gathers decode files scripts := by
  refine ⟨fun loaded => ?_, loadFiles_of_gathers⟩
  rcases gathers_or_stops decode files with ⟨scripts', gathers⟩ | ⟨e, stops⟩
  · cases loaded.symm.trans (loadFiles_of_gathers gathers)
    exact gathers
  · cases loaded.symm.trans (loadFiles_of_stops stops)

theorem loadFiles_error_iff : loadFiles decode [] files = .error e ↔ Stops decode files e := by
  refine ⟨fun refused => ?_, loadFiles_of_stops⟩
  rcases gathers_or_stops decode files with ⟨scripts', gathers⟩ | ⟨e', stops⟩
  · cases refused.symm.trans (loadFiles_of_gathers gathers)
  · cases refused.symm.trans (loadFiles_of_stops stops)
    exact stops

/-- A directory is loaded as its script files are, in order of their names. -/
theorem load_directory {t : FileTree} {place : List String}
    (leads : t.find? path = some (.inside place)) (directory : t.isDirectory place = true)
    (decode : Decoding) :
    ∃ files, t.ScriptFilesIn place files ∧
      (t.Distinct → ∀ others, t.ScriptFilesIn place others → others = files) ∧
      let found := files.map fun f => (FileTree.lead path ++ f.1, f.2)
      (∀ scripts, load decode t path = .ok scripts ↔ Gathers decode found scripts) ∧
        ∀ e, load decode t path = .error e ↔ Stops decode found e := by
  have listed := t.scriptFilesIn place
  refine ⟨t.scriptFiles place, listed, fun distinct _ again => listed.unique distinct again, ?_⟩
  have loads : load decode t path = loadFiles decode []
      ((t.scriptFiles place).map fun f => (FileTree.lead path ++ f.1, f.2)) := by
    rw [load, leads]
    exact if_pos directory
  rw [loads]
  exact ⟨fun _ => loadFiles_ok_iff, fun _ => loadFiles_error_iff⟩

/-- A directory with two script files, beside a note and another script further down. -/
def shelf : FileTree where
  files := [(["in", "second.yaml"], some "finale"), (["in", "first.yml"], some "opening"),
    (["in", "notes.txt"], some "cut"), (["in", "old", "third.yaml"], some "encore")]
  directories := []

def retold : Decoding := fun _ text => some [ScriptConfig.ofLines text []]

theorem load_directory_shelf :
    shelf.find? "in" = some (.inside ["in"]) ∧ shelf.isDirectory ["in"] = true ∧
      ∃ files, shelf.ScriptFilesIn ["in"] files ∧
        (shelf.Distinct → ∀ others, shelf.ScriptFilesIn ["in"] others → others = files) ∧
        let found := files.map fun f => (FileTree.lead "in" ++ f.1, f.2)
        (∀ scripts, load retold shelf "in" = .ok scripts ↔ Gathers retold found scripts) ∧
          ∀ e, load retold shelf "in" = .error e ↔ Stops retold found e := by
  have leads : shelf.find? "in" = some (.inside ["in"]) := by decide
  have directory : shelf.isDirectory ["in"] = true := by decide
  exact ⟨leads, directory, load_directory leads directory retold⟩

end Cuescript.ScriptLoader
