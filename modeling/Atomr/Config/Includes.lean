import Atomr.Config.CursorProgress

/-! Documents that include other documents.

A file is read and parsed, and each inclusion in it is a file that is read and parsed, with its path taken
from the directory of the file that includes it. Nothing keeps track of the files that are being parsed.
-/

namespace Atomr.Config

open Library Text
open Relation (ReflTransGen TransGen)

/-- Files by their paths, and how a path is taken apart and put together. -/
structure FileSystem where
  read : String → Except String String
  parent : String → Option String
  join : String → String → String

variable {F : Type}

namespace FileSystem

variable (files : FileSystem)

def baseDir (path : String) : String := (files.parent path).getD "."

def included (path rel : String) : String := files.join (files.baseDir path) rel

variable (setting : Setting F)

def fileCode (path : String) : Asking String (ConfigValue F) (Except Fault (ConfigValue F)) :=
  match files.read path with
  | .error source => .done (.error (.failed (.io path source)))
  | .ok text => parseText setting text

/-- The result of a file, if its inclusions are not nested deeper than given. -/
def parseFile (depth : Nat) (path : String) : Option (Except Fault (ConfigValue F)) :=
  Asking.Nested.eval (files.fileCode setting) files.included depth path

/-- An inclusion of the second file is executed when the first is parsed. -/
def Includes (path next : String) : Prop := Asking.Nested.Asks (files.fileCode setting) files.included path next

theorem read_of_includes {setting : Setting F} {p next : String} (includes : files.Includes setting p next) :
    ∃ tx, files.read p = .ok tx := by
  obtain ⟨depth, ask, mem, -⟩ := includes
  unfold fileCode at mem
  cases content : files.read p with
  | ok tx => exact ⟨tx, rfl⟩
  | error src =>
    rw [content] at mem
    cases mem

theorem fileCode_fails (path : String) :
    (files.fileCode setting path).All fun result => ∀ fault, result = .error fault → ∃ error, fault = .failed error := by
  unfold fileCode
  cases files.read path with
  | error source =>
    rintro _ ⟨⟩
    exact ⟨_, rfl⟩
  | ok text => exact parseText_fails setting text

/-- A file returns, with a value or an error of the program, exactly when no chain of inclusions from it goes round. -/
theorem includes_return_iff (setting : Setting F) (finite : {path | ∃ text, files.read path = .ok text}.Finite)
    (path : String) :
    (∃ (depth : Nat) (result : Except HoconError (ConfigValue F)),
      files.parseFile setting depth path = some (result.mapError .failed)) ↔
      ∀ cycle, ReflTransGen (files.Includes setting) path cycle → ¬ TransGen (files.Includes setting) cycle cycle := by
  have some : {path | ∃ next, files.Includes setting path next}.Finite :=
    finite.subset fun _ includes => files.read_of_includes includes.choose_spec
  refine Iff.trans ⟨fun ⟨depth, result, ended⟩ => ⟨depth, _, ended⟩, fun ⟨depth, result, ended⟩ => ?_⟩
    ((Asking.Nested.returns_iff_acc path).trans (acc_iff_no_cycle some path))
  cases result with
  | ok value => exact ⟨depth, .ok value, ended⟩
  | error fault =>
    obtain ⟨error, rfl⟩ := Asking.Nested.eval_error (files.fileCode_fails setting) ended
    exact ⟨depth, .error error, ended⟩

end FileSystem

def twoFiles (first second : String) : FileSystem where
  read path := if path = "a.conf" then .ok first else if path = "b.conf" then .ok second else .error "not found"
  parent _ := some ""
  join _ rel := rel

def bareSetting : Setting Empty := ⟨fun _ => none, fun _ => none⟩

theorem twoFiles_finite (first second : String) : {p | ∃ tx, (twoFiles first second).read p = .ok tx}.Finite := by
  refine Set.Finite.subset (Set.toFinite {"a.conf", "b.conf"}) ?_
  rintro p ⟨tx, found⟩
  by_cases isFirst : p = "a.conf"
  · exact .inl isFirst
  · by_cases isSecond : p = "b.conf"
    · exact .inr isSecond
    · simp [twoFiles, isFirst, isSecond] at found

theorem includes_return_once :
    let files := twoFiles "include \x22b.conf\x22" "k = 1"
    ∀ cycle, ReflTransGen (files.Includes bareSetting) "a.conf" cycle → ¬ TransGen (files.Includes bareSetting) cycle cycle := by
  intro files
  have ended : files.parseFile bareSetting 2 "a.conf" = some (.ok (.object [("k", .int 1)])) := by decide +kernel
  exact (files.includes_return_iff bareSetting (twoFiles_finite _ _) "a.conf").mp ⟨2, .ok _, ended⟩

/-- A file that includes itself is parsed within itself without end. -/
theorem self_include_never_returns :
    let files := twoFiles "include \x22a.conf\x22" ""
    ∀ depth, files.parseFile bareSetting depth "a.conf" = none := by
  intro files
  have first : (files.fileCode bareSetting "a.conf").firstQuestion = some "a.conf" := by decide +kernel
  exact Asking.Nested.eval_eq_none first rfl

end Atomr.Config
