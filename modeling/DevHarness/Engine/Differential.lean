import DevHarness.Lib.Dict
import DevHarness.Lib.Worklist
import Mathlib.Data.List.Sort
import Mathlib.Data.Option.Basic
import Mathlib.Data.String.Basic
/-!
# Differential — which tests a change selects (`engine/testing/differential.py`)

The direct imports of a test are closed over the module graph by a worklist; a test is selected when what it reaches and
the changed modules have a module in common.  A set of Python is a list here, in the order its iteration has: nothing
below depends on that order (`selectTests_congr`).
-/
namespace DevHarness
namespace Engine
namespace Differential

open Lib (Dict Worklist)

/-! ## Names of modules -/

def splitSlash (path : String) : List String := (path.toList.splitOn '/').map String.ofList

/-- The root of a POSIX path: two slashes are their own, three are one. -/
def rootOf (path : String) : String :=
  match path.toList with
  | '/' :: '/' :: '/' :: _ => "/"
  | '/' :: '/' :: _ => "//"
  | '/' :: _ => "/"
  | _ => ""

def asPosix (path : String) : String :=
  let parts := (splitSlash path).filter (fun part => part ≠ "" ∧ part ≠ ".")
  if rootOf path = "" ∧ parts = [] then "." else rootOf path ++ "/".intercalate parts

def dropSrc (parts : List String) : List String := if parts.head? = some "src" then parts.tail else parts

def dropSuffix (parts : List String) : List String :=
  match parts.getLast? with
  | none => parts
  | some last =>
    if ".py".toList.isSuffixOf last.toList then parts.dropLast ++ [String.ofList (last.toList.take (last.length - 3))]
    else parts

def dropInit (parts : List String) : List String := if parts.getLast? = some "__init__" then parts.dropLast else parts

def moduleOf (posix : String) : String := ".".intercalate (dropInit (dropSuffix (dropSrc (splitSlash posix))))

def pathToModule (path : String) : String := moduleOf (asPosix path)

/-! ## The graph -/

inductive Import where
  | import_ (names : List String)
  | importFrom (level : ℕ) (module : Option String) (names : List String)
  deriving DecidableEq

/-- A file below one of the two roots. -/
structure SourceFile where
  path : String
  -- the import statements anywhere in it, and the names in its `__all__`
  tree : List Import
  exports : List String := []
  -- it is UTF-8, and `ast` parses it
  parses : Bool := true
  deriving DecidableEq

def importsOf (tree : List Import) : List String :=
  tree.flatMap fun
    | .import_ names => names
    | .importFrom level module names =>
      if level ≠ 0 then [] else match module with
        | none => []
        | some m => m :: names.map (fun name => m ++ "." ++ name)

def SourceFile.parse (f : SourceFile) : List Import := if f.parses then f.tree else []

def moduleGraph (src : List SourceFile) : Dict String (List String) :=
  Dict.ofList (src.map (fun f => (pathToModule f.path, importsOf f.parse)))

def successors (graph : Dict String (List String)) (module : String) : List String := graph.getD module []

theorem successors_of_notMem {graph : Dict String (List String)} {module : String} (h : module ∉ graph.keys) :
    successors graph module = [] := by
  have hnone : graph.get? module = none := by
    by_contra hsome
    exact h ((graph.mem_keys_iff module).2 (Option.ne_none_iff_exists'.1 hsome))
  rw [successors, Dict.getD, hnone]
  rfl

def reachableFrom (graph : Dict String (List String)) (seen stack : List String) : List String :=
  match _hlast : stack.getLast? with
  | none => seen
  | some module =>
    if module ∈ seen then reachableFrom graph seen stack.dropLast
    else reachableFrom graph (module :: seen) (stack.dropLast ++ successors graph module)
termination_by Worklist.size (successors graph) graph.keys ⟨seen, stack⟩
decreasing_by
  · have hne : stack ≠ [] := by
      rintro rfl
      cases _hlast
    have hlength := List.length_pos_of_ne_nil hne
    simp only [Worklist.size, List.length_dropLast]
    omega
  · rename_i hnew
    have hne : stack ≠ [] := by
      rintro rfl
      cases _hlast
    have hlength := List.length_pos_of_ne_nil hne
    have hvisit := @Worklist.size_visit _ (successors graph) _ graph.keys seen module (fun _ ha => successors_of_notMem ha) hnew
    simp only [Worklist.size, List.length_append, List.length_dropLast]
    omega

def reachable (start : List String) (graph : Dict String (List String)) : List String := reachableFrom graph [] start

/-- The closure of every test's direct imports. -/
def dependencyGraph (graph tests : Dict String (List String)) : Dict String (List String) :=
  tests.mapValues (fun direct => reachable direct graph)

def nodeId (f : SourceFile) : String := "tests/" ++ f.path

def buildDependencyGraph (tests src : List SourceFile) : Dict String (List String) :=
  dependencyGraph (moduleGraph src) (Dict.ofList (tests.map (fun t => (nodeId t, importsOf t.parse))))

/-! ## Selecting -/

structure SelectionResult where
  tests : List String
  fullSuite : Bool
  reason : Option String := none
  deriving DecidableEq

/-- What the loader does; an exception with the name of its type and its text. -/
inductive Loaded where
  | graph (g : Dict String (List String))
  | none
  | raised (type message : String)

def sorted (ids : List String) : List String := ids.insertionSort (· ≤ ·)

/-- The selection when there is no graph, with what is logged. -/
def wholeSuite (allTests : List String) (detail : String) : SelectionResult × List String :=
  let reason := "dependency graph unavailable (" ++ detail ++ "); running full suite"
  (⟨sorted allTests, true, some reason⟩, ["differential selection: " ++ reason])

/-- `select_tests`, with the warnings it logs. -/
def selectTests (changed : List String) (loader : Loaded) (allTests : List String) : SelectionResult × List String :=
  match loader with
  | .none => wholeSuite allTests "loader returned None"
  | .raised type message => wholeSuite allTests (type ++ ": " ++ message)
  | .graph g =>
    let changedModules := changed.map pathToModule
    (⟨sorted ((g.items.filter (fun p => p.2.any (fun m => changedModules.contains m))).map Prod.fst), false, Option.none⟩,
      [])

/-- `make_loader`, for the trees of the two roots where these are directories. -/
def makeLoader (tests src : Option (List SourceFile)) : Loaded :=
  match tests, src with
  | some tests, some src => .graph (buildDependencyGraph tests src)
  | _, _ => .none

/-! ## The closure -/

theorem reachableFrom_run (graph : Dict String (List String)) (seen stack : List String) :
    Relation.ReflTransGen (Worklist.Step (successors graph)) ⟨seen, stack⟩ ⟨reachableFrom graph seen stack, []⟩ := by
  fun_induction reachableFrom graph seen stack with
  | case1 seen stack hnone =>
    rw [List.getLast?_eq_none_iff.1 hnone]
  | case2 seen stack module hlast hseen ih =>
    refine Relation.ReflTransGen.head (Worklist.Step.skip ?_ hseen) ih
    rw [← List.dropLast_append_getLast? module hlast, List.dropLast_concat]
    exact List.perm_append_singleton module _
  | case3 seen stack module hlast hnew ih =>
    refine Relation.ReflTransGen.head (Worklist.Step.visit ?_ hnew (List.Perm.refl _)) ih
    conv_lhs => rw [← List.dropLast_append_getLast? module hlast]
    exact List.perm_append_singleton module _

/-- **`_reachable` is reachability.** -/
theorem mem_reachable_iff {start : List String} {graph : Dict String (List String)} (m : String) :
    m ∈ reachable start graph ↔ Worklist.Reach (successors graph) start m :=
  Worklist.mem_seen_iff_reach (reachableFrom_run graph [] start) rfl m

theorem mem_sorted {ids : List String} {id : String} : id ∈ sorted ids ↔ id ∈ ids :=
  List.mem_insertionSort (· ≤ ·)

/-- **A test is selected when it reaches a changed module.** -/
theorem mem_selectTests_iff {graph tests : Dict String (List String)} {changed allTests : List String} {id : String} :
    id ∈ (selectTests changed (.graph (dependencyGraph graph tests)) allTests).1.tests ↔
      ∃ direct, tests.get? id = some direct ∧
        ∃ path ∈ changed, Worklist.Reach (successors graph) direct (pathToModule path) := by
  simp only [selectTests, mem_sorted, List.mem_map, List.mem_filter, List.any_eq_true, List.contains_iff_mem]
  constructor
  · rintro ⟨p, ⟨hp, m, hm, path, hpath, rfl⟩, rfl⟩
    have hget := ((dependencyGraph graph tests).get?_eq_some_iff p.1 p.2).2 hp
    rw [dependencyGraph, Dict.get?_mapValues] at hget
    obtain ⟨direct, hdirect, hreach⟩ := Option.map_eq_some_iff.1 hget
    rw [← hreach] at hm
    exact ⟨direct, hdirect, path, hpath, (mem_reachable_iff _).1 hm⟩
  · rintro ⟨direct, hdirect, path, hpath, hreach⟩
    have hget : (dependencyGraph graph tests).get? id = some (reachable direct graph) := by
      rw [dependencyGraph, Dict.get?_mapValues, hdirect]
      rfl
    exact ⟨(id, reachable direct graph), ⟨((dependencyGraph graph tests).get?_eq_some_iff _ _).1 hget,
      pathToModule path, (mem_reachable_iff _).2 hreach, path, hpath, rfl⟩, rfl⟩

/-! ## Orders -/

/-- Two graphs with the same edges, whatever order their sets are walked in. -/
def SameSets (g g' : Dict String (List String)) : Prop :=
  ∀ k, Option.Rel (fun a b => ∀ x, x ∈ a ↔ x ∈ b) (g.get? k) (g'.get? k)

theorem SameSets.symm {g g' : Dict String (List String)} (h : SameSets g g') : SameSets g' g := by
  intro k
  have hk := h k
  cases hg : g.get? k <;> cases hg' : g'.get? k <;> rw [hg, hg'] at hk <;> cases hk
  · exact Option.Rel.none
  · rename_i hab
    exact Option.Rel.some (fun x => (hab x).symm)

theorem SameSets.successors {g g' : Dict String (List String)} (h : SameSets g g') (m x : String)
    (hx : x ∈ successors g m) : x ∈ successors g' m := by
  have hm := h m
  rw [Differential.successors, Dict.getD] at hx ⊢
  cases hg : g.get? m with
  | none =>
    rw [hg] at hx
    cases hx
  | some a =>
    cases hg' : g'.get? m with
    | none =>
      rw [hg, hg'] at hm
      cases hm
    | some b =>
      rw [hg, hg'] at hm
      rw [hg] at hx
      cases hm with
      | some hab => exact (hab x).1 hx

theorem reaches_of_sameSets {graph graph' tests tests' : Dict String (List String)} {changed changed' : List String}
    (hgraph : SameSets graph graph') (htests : SameSets tests tests') (hchanged : ∀ c ∈ changed, c ∈ changed')
    {id : String} (h : ∃ direct, tests.get? id = some direct ∧
      ∃ path ∈ changed, Worklist.Reach (successors graph) direct (pathToModule path)) :
    ∃ direct, tests'.get? id = some direct ∧
      ∃ path ∈ changed', Worklist.Reach (successors graph') direct (pathToModule path) := by
  obtain ⟨direct, hdirect, path, hpath, hreach⟩ := h
  have hid := htests id
  rw [hdirect] at hid
  cases hdirect' : tests'.get? id with
  | none =>
    rw [hdirect'] at hid
    cases hid
  | some direct' =>
    rw [hdirect'] at hid
    cases hid with
    | some hab =>
      exact ⟨direct', rfl, path, hchanged path hpath,
        hreach.mono (fun s hs => (hab s).1 hs) (fun a b hb => hgraph.successors a b hb)⟩

theorem nodup_selected (changed allTests : List String) (g : Dict String (List String)) :
    (selectTests changed (.graph g) allTests).1.tests.Nodup := by
  refine (List.perm_insertionSort (· ≤ ·) _).nodup_iff.2 ?_
  exact g.nodup.sublist (List.filter_sublist.map Prod.fst)

/-- **No order matters**: of the changed files, of the tests, or of any set. -/
theorem selectTests_congr {graph graph' tests tests' : Dict String (List String)} {changed changed' : List String}
    (hgraph : SameSets graph graph') (htests : SameSets tests tests') (hchanged : ∀ c, c ∈ changed ↔ c ∈ changed')
    (allTests : List String) :
    selectTests changed (.graph (dependencyGraph graph tests)) allTests =
      selectTests changed' (.graph (dependencyGraph graph' tests')) allTests := by
  have hmem : ∀ id, id ∈ (selectTests changed (.graph (dependencyGraph graph tests)) allTests).1.tests ↔
      id ∈ (selectTests changed' (.graph (dependencyGraph graph' tests')) allTests).1.tests := by
    intro id
    rw [mem_selectTests_iff, mem_selectTests_iff]
    constructor
    · exact reaches_of_sameSets hgraph htests (fun c hc => (hchanged c).1 hc)
    · exact reaches_of_sameSets hgraph.symm htests.symm (fun c hc => (hchanged c).2 hc)
  have hperm := (List.perm_ext_iff_of_nodup (nodup_selected changed allTests (dependencyGraph graph tests))
    (nodup_selected changed' allTests (dependencyGraph graph' tests'))).2 hmem
  have htestsEq : (selectTests changed (.graph (dependencyGraph graph tests)) allTests).1.tests =
      (selectTests changed' (.graph (dependencyGraph graph' tests')) allTests).1.tests :=
    hperm.eq_of_pairwise (fun _ _ _ _ => le_antisymm) (List.pairwise_insertionSort _ _) (List.pairwise_insertionSort _ _)
  simp only [selectTests] at htestsEq ⊢
  rw [htestsEq]

/-! ## The selector -/

/-- Every traversal of the graph ends, and what it then has seen is what `_reachable` returns. -/
def Traverses (graph : Dict String (List String)) : Prop :=
  WellFounded (fun w' w => Worklist.Step (successors graph) w w') ∧
  ∀ direct w, Relation.ReflTransGen (Worklist.Step (successors graph)) ⟨[], direct⟩ w → w.stack = [] →
    ∀ m, m ∈ w.seen ↔ m ∈ reachable direct graph

def SelectsReaching (graph tests : Dict String (List String)) (changed allTests : List String) : Prop :=
  let selected := (selectTests changed (.graph (dependencyGraph graph tests)) allTests).1
  selected.fullSuite = false ∧ ∀ id, id ∈ selected.tests ↔ ∃ direct, tests.get? id = some direct ∧
    ∃ path ∈ changed, Worklist.Reach (successors graph) direct (pathToModule path)

/-- Neither the order of the changed files nor the order of any set changes the selection. -/
def OrderFree (graph tests : Dict String (List String)) (changed allTests : List String) : Prop :=
  ∀ graph' tests' changed', SameSets graph graph' → SameSets tests tests' → (∀ c, c ∈ changed ↔ c ∈ changed') →
    selectTests changed (.graph (dependencyGraph graph tests)) allTests =
      selectTests changed' (.graph (dependencyGraph graph' tests')) allTests

def FallsBack (changed allTests : List String) : Prop :=
  ∀ loader, (∀ g, loader ≠ .graph g) → ∃ reason, selectTests changed loader allTests =
    (⟨sorted allTests, true, some reason⟩, ["differential selection: " ++ reason])

/-- **Differential selection is reachability.** -/
theorem selects_reaching (graph tests : Dict String (List String)) (changed allTests : List String) :
    Traverses graph ∧ SelectsReaching graph tests changed allTests ∧ OrderFree graph tests changed allTests ∧
      FallsBack changed allTests := by
  refine ⟨⟨?_, ?_⟩, ⟨rfl, fun id => mem_selectTests_iff⟩, ?_, ?_⟩
  · exact Worklist.wellFounded_step (fun _ ha => successors_of_notMem ha)
  · intro direct w hrun hend m
    rw [Worklist.mem_seen_iff_reach hrun hend, mem_reachable_iff]
  · intro graph' tests' changed' hgraph htests hchanged
    exact selectTests_congr hgraph htests hchanged allTests
  · intro loader hloader
    cases loader with
    | graph g => exact absurd rfl (hloader g)
    | none => exact ⟨_, rfl⟩
    | raised type message => exact ⟨_, rfl⟩

end Differential
end Engine
end DevHarness
