import DevHarness.Engine.Differential
/-!
# ImportSemantics — what a test can run, and what the selector sees of it (`engine/testing/differential.py`)

Importing `a.b.c` runs the packages `a` and `a.b`, then `a.b.c`; a relative import starts at the package of the file; a
name that is imported may be a module; `*` stands for what `__all__` lists.  The selector follows the names that absolute
imports spell out, through the files below `src` only.
-/
namespace DevHarness
namespace Engine
namespace Differential

open Lib (Dict Worklist)

/-- The trees on `sys.path`: the source root, and the directory `tests` lies in. -/
structure Project where
  src : List SourceFile
  tests : List SourceFile
  src_nodup : (src.map SourceFile.path).Nodup
  tests_nodup : (tests.map SourceFile.path).Nodup

inductive Root where
  | src
  | tests
  deriving DecidableEq

/-- A file in its tree. -/
structure Located where
  root : Root
  file : SourceFile
  deriving DecidableEq

namespace Located

/-- The path from the directory of the repository. -/
def repoPath (f : Located) : String :=
  match f.root with
  | .src => "src/" ++ f.file.path
  | .tests => "tests/" ++ f.file.path

/-- The name it is imported by. -/
def name (f : Located) : List String :=
  match f.root with
  | .src => dropInit (dropSuffix (splitSlash f.file.path))
  | .tests => dropInit (dropSuffix ("tests" :: splitSlash f.file.path))

def isPackage (f : Located) : Prop := (splitSlash f.file.path).getLast? = some "__init__.py"

instance (f : Located) : Decidable f.isPackage := inferInstanceAs (Decidable (_ = _))

/-- Its `__package__`. -/
def package (f : Located) : List String := if f.isPackage then f.name else f.name.dropLast

end Located

/-- `name.split(".")`. -/
def splitDot (name : String) : List String := (name.toList.splitOn '.').map String.ofList

namespace Project

variable (p : Project)

def Has (f : Located) : Prop :=
  match f.root with
  | .src => f.file ∈ p.src
  | .tests => f.file ∈ p.tests

/-- The file a name is found at: the package hides a module of its name. -/
def Found (name : List String) (g : Located) : Prop :=
  p.Has g ∧ g.name = name ∧ (g.isPackage ∨ ∀ g', p.Has g' → g'.root = g.root → g'.name = name → ¬ g'.isPackage)

/-- The module a `from` import starts at, counted up from the package of the file when it is relative. -/
def base (f : Located) (level : ℕ) (module : Option String) : Option (List String) :=
  if level = 0 then module.map splitDot
  else if level ≤ f.package.length then
    some (f.package.take (f.package.length - (level - 1)) ++ (module.map splitDot).getD [])
  else none

/-- The modules a file that runs asks for, itself with its packages among them. -/
inductive Asks (f : Located) : List String → Prop where
  | self : Asks f f.name
  | module {names : List String} {n : String} : .import_ names ∈ f.file.tree → n ∈ names → Asks f (splitDot n)
  | base {level : ℕ} {module : Option String} {names b : List String} :
      .importFrom level module names ∈ f.file.tree → base f level module = some b → Asks f b
  | name {level : ℕ} {module : Option String} {names b : List String} {n : String} :
      .importFrom level module names ∈ f.file.tree → base f level module = some b → n ∈ names → Asks f (b ++ [n])
  | star {level : ℕ} {module : Option String} {names b : List String} {g : Located} {n : String} :
      .importFrom level module names ∈ f.file.tree → base f level module = some b → "*" ∈ names →
      p.Found b g → n ∈ g.file.exports → Asks f (b ++ [n])

/-- One file runs another: it asks for it, or for a module below it. -/
def Imports (f g : Located) : Prop := ∃ name, p.Asks f name ∧ ∃ up, up ≠ [] ∧ up <+: name ∧ p.Found up g

/-- **What a file can run**, itself included. -/
def CanRun : Located → Located → Prop := Relation.ReflTransGen p.Imports

def Changed (changed : List String) (g : Located) : Prop := ∃ path ∈ changed, asPosix path = g.repoPath

/-- **The selection is sound**: every test that can run a changed file, or is one, is selected. -/
def Sound (changed allTests : List String) : Prop :=
  ∀ t ∈ p.tests, (∃ g, p.CanRun ⟨.tests, t⟩ g ∧ Changed changed g) →
    nodeId t ∈ (selectTests changed (makeLoader (some p.tests) (some p.src)) allTests).1.tests

/-- The file the module graph has under its name: the last one of that name. -/
def Graphed (f : SourceFile) : Prop :=
  ∃ before after, p.src = before ++ f :: after ∧ ∀ g ∈ after, pathToModule g.path ≠ pathToModule f.path

/-- **The modules a test spells out**: by absolute imports of its own, or of files below `src` it spells out. -/
inductive SpellsOut (t : SourceFile) : String → Prop where
  | own {m : String} : m ∈ importsOf t.parse → SpellsOut t m
  | through {f : SourceFile} {m : String} : SpellsOut t (pathToModule f.path) → p.Graphed f → m ∈ importsOf f.parse →
      SpellsOut t m

/-- A test that can run a changed file spells out the module of one. -/
def Spelt (changed : List String) : Prop :=
  ∀ t ∈ p.tests, (∃ g, p.CanRun ⟨.tests, t⟩ g ∧ Changed changed g) →
    ∃ path ∈ changed, p.SpellsOut t (pathToModule path)

/-! ## What is spelt out is what is reached -/

variable {p}

theorem moduleGraph_get? {m : String} {imports : List String} :
    (moduleGraph p.src).get? m = some imports ↔ ∃ f, p.Graphed f ∧ pathToModule f.path = m ∧ importsOf f.parse = imports := by
  rw [moduleGraph, Dict.get?_ofList, ← List.map_reverse, List.find?_map, Option.map_map, Option.map_eq_some_iff]
  constructor
  · rintro ⟨f, hf, rfl⟩
    obtain ⟨hm, after, before, hsplit, hnone⟩ := List.find?_eq_some_iff_append.1 hf
    have hm' : pathToModule f.path = m := by simpa using hm
    refine ⟨f, ⟨before.reverse, after.reverse, ?_, fun g hg => ?_⟩, hm', rfl⟩
    · rw [← List.reverse_inj, hsplit]
      simp
    · have hg' := hnone g (List.mem_reverse.1 hg)
      rw [hm']
      simpa using hg'
  · rintro ⟨f, ⟨before, after, hsplit, hlast⟩, rfl, rfl⟩
    refine ⟨f, List.find?_eq_some_iff_append.2 ⟨by simp, after.reverse, before.reverse, ?_, fun g hg => ?_⟩, rfl⟩
    · rw [hsplit]
      simp
    · simpa using hlast g (List.mem_reverse.1 hg)

theorem mem_successors_iff {m k : String} :
    k ∈ successors (moduleGraph p.src) m ↔ ∃ f, p.Graphed f ∧ pathToModule f.path = m ∧ k ∈ importsOf f.parse := by
  rw [successors, Dict.getD]
  constructor
  · intro h
    cases hg : (moduleGraph p.src).get? m with
    | none =>
      rw [hg] at h
      cases h
    | some imports =>
      rw [hg] at h
      obtain ⟨f, hf, hm, rfl⟩ := moduleGraph_get?.1 hg
      exact ⟨f, hf, hm, h⟩
  · rintro ⟨f, hf, hm, hk⟩
    rw [moduleGraph_get?.2 ⟨f, hf, hm, rfl⟩]
    exact hk

theorem reach_iff_spellsOut {t : SourceFile} {m : String} :
    Worklist.Reach (successors (moduleGraph p.src)) (importsOf t.parse) m ↔ p.SpellsOut t m := by
  constructor
  · intro h
    refine h.mem_of_closed (fun s hs => SpellsOut.own hs) (fun a ha b hb => ?_)
    obtain ⟨f, hf, rfl, hk⟩ := mem_successors_iff.1 hb
    exact ha.through hf hk
  · intro h
    induction h with
    | own hm => exact ⟨_, hm, Relation.ReflTransGen.refl⟩
    | through _ hf hm ih =>
      obtain ⟨s, hs, hreach⟩ := ih
      exact ⟨s, hs, hreach.tail (mem_successors_iff.2 ⟨_, hf, rfl, hm⟩)⟩

theorem tests_get? {t : SourceFile} (h : t ∈ p.tests) :
    (Dict.ofList (p.tests.map (fun t => (nodeId t, importsOf t.parse)))).get? (nodeId t) = some (importsOf t.parse) := by
  refine Dict.get?_ofList_of_nodup ?_ (List.mem_map.2 ⟨t, h, rfl⟩)
  have hids : (p.tests.map nodeId) = (p.tests.map SourceFile.path).map (fun path => "tests/" ++ path) := by
    rw [List.map_map]
    rfl
  rw [List.map_map]
  exact hids ▸ p.tests_nodup.map (fun _ _ h => (String.append_right_inj "tests/").1 h)

/-- **A test is selected when it spells out a changed module.** -/
theorem selected_iff {t : SourceFile} (h : t ∈ p.tests) (changed allTests : List String) :
    nodeId t ∈ (selectTests changed (makeLoader (some p.tests) (some p.src)) allTests).1.tests ↔
      ∃ path ∈ changed, p.SpellsOut t (pathToModule path) := by
  rw [makeLoader, buildDependencyGraph, mem_selectTests_iff]
  constructor
  · rintro ⟨direct, hdirect, path, hpath, hreach⟩
    rw [tests_get? h] at hdirect
    cases hdirect
    exact ⟨path, hpath, reach_iff_spellsOut.1 hreach⟩
  · rintro ⟨path, hpath, hspelt⟩
    exact ⟨_, tests_get? h, path, hpath, reach_iff_spellsOut.2 hspelt⟩

/-- **The selection is sound on exactly the trees and changes whose imports are spelt out.** -/
theorem sound_iff_spelt (p : Project) (changed allTests : List String) :
    p.Sound changed allTests ↔ p.Spelt changed := by
  refine forall₂_congr (fun t ht => imp_congr_right (fun _ => ?_))
  exact selected_iff ht changed allTests

/-! ## Imports that are spelt out -/

/-- Every file one imports is below `src`, is the one the graph has, and is named in an absolute import. -/
def SpellsImports (p : Project) : Prop :=
  ∀ f g, p.Imports f g → g ≠ f → g.root = .src ∧ p.Graphed g.file ∧
    moduleOf g.repoPath = pathToModule g.file.path ∧ moduleOf g.repoPath ∈ importsOf f.file.parse

theorem spellsOut_of_canRun (h : p.SpellsImports) {t : SourceFile} {g : Located} (hrun : p.CanRun ⟨.tests, t⟩ g) :
    g = ⟨.tests, t⟩ ∨ p.Graphed g.file ∧ moduleOf g.repoPath = pathToModule g.file.path ∧
      p.SpellsOut t (moduleOf g.repoPath) := by
  induction hrun with
  | refl => exact Or.inl rfl
  | @tail f g _ hedge ih =>
    by_cases hself : g = f
    · rw [hself]
      exact ih
    · obtain ⟨-, hgraphed, hmodule, himports⟩ := h f g hedge hself
      refine Or.inr ⟨hgraphed, hmodule, ?_⟩
      rcases ih with rfl | ⟨hf, hf', hspelt⟩
      · exact SpellsOut.own himports
      · exact SpellsOut.through (hf' ▸ hspelt) hf himports

/-- **Where every import is spelt out, a change below `src` selects every test that can run it.** -/
theorem sound_of_spellsImports (h : p.SpellsImports) {changed : List String}
    (hchanged : ∀ t ∈ p.tests, ¬ Changed changed ⟨.tests, t⟩) (allTests : List String) : p.Sound changed allTests := by
  rintro t ht ⟨g, hrun, hg⟩
  refine (selected_iff ht changed allTests).2 ?_
  rcases spellsOut_of_canRun h hrun with rfl | ⟨-, -, hspelt⟩
  · exact absurd hg (hchanged t ht)
  · obtain ⟨path, hpath, hposix⟩ := hg
    refine ⟨path, hpath, ?_⟩
    rw [pathToModule, hposix]
    exact hspelt

/-! ## A package that is not spelt out -/

def leafProject : Project where
  src := [⟨"pkg/__init__.py", [], [], true⟩, ⟨"pkg/leaf.py", [], [], true⟩]
  tests := [⟨"test_leaf.py", [.import_ ["pkg.leaf"]], [], true⟩]
  src_nodup := by decide
  tests_nodup := by decide

/-- Importing `pkg.leaf` runs `pkg/__init__.py`; when that file changes the test is not selected. -/
theorem package_not_selected : ¬ leafProject.Sound ["src/pkg/__init__.py"] [] := by
  intro h
  have hrun : leafProject.CanRun ⟨.tests, ⟨"test_leaf.py", [.import_ ["pkg.leaf"]], [], true⟩⟩
      ⟨.src, ⟨"pkg/__init__.py", [], [], true⟩⟩ := by
    refine Relation.ReflTransGen.single ⟨splitDot "pkg.leaf", Asks.module List.mem_cons_self List.mem_cons_self,
      ["pkg"], List.cons_ne_nil _ _, by decide, List.mem_cons_self, by decide, Or.inl (by decide)⟩
  have hselected := h _ List.mem_cons_self ⟨_, hrun, _, List.mem_cons_self, by decide⟩
  obtain ⟨path, hpath, hspelt⟩ := (selected_iff List.mem_cons_self _ _).1 hselected
  rw [List.mem_singleton.1 hpath] at hspelt
  have hmodule : pathToModule "src/pkg/__init__.py" = "pkg" := by decide
  rw [hmodule] at hspelt
  cases hspelt with
  | own hm => exact absurd hm (by decide)
  | through _ hf hm =>
    obtain ⟨before, after, hsplit, -⟩ := hf
    rename_i f _
    have hmem : f ∈ leafProject.src := by
      rw [hsplit]
      exact List.mem_append_right _ List.mem_cons_self
    rcases List.mem_cons.1 hmem with rfl | hmem
    · cases hm
    · rw [List.mem_singleton.1 hmem] at hm
      cases hm

end Project
end Differential
end Engine
end DevHarness
