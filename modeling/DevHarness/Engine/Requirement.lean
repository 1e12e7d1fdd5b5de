import DevHarness.Engine.DagOrder
import DevHarness.Lib.Text
/-!
# Requirement — from a requirement file to its chunks (`engine/cli.py`, `parse_chunks`)

A line with an id of its own keeps it; any other is numbered by its place among the chunks.  The two kinds of id can meet,
and the graph keeps one chunk of each id, so a line can be lost without an error: exactly when the ids a text writes down
repeat, or name the number of a line without one (`parseChunks_keeps_lines_iff`).
-/
namespace DevHarness
namespace Engine

open Lib (Text)
open Lib.Text (isSpace lstrip strip splitlines partition)

/-- A parsed line: the chunk and the title that goes with it. -/
structure TitledChunk where
  chunk : Chunk
  title : Text
  deriving DecidableEq

structure EngineError where
  message : Text
  remediation : Text
  deriving DecidableEq

/-- `[A-Za-z0-9_.-]` -/
def isIdChar (c : Char) : Bool := c.isAlphanum || c = '_' || c = '.' || c = '-'

/-- `_STRUCTURED.match` on a stripped line, its id and its title: neither `:` nor a space can belong to the id, and the
line does not end in a space, so there is nothing to back up over. -/
def structured (line : Text) : Option (Text × Text) :=
  match line.takeWhile isIdChar, lstrip (line.dropWhile isIdChar) with
  | [], _ => none
  | id, ':' :: rest => match lstrip rest with
    | [] => none
    | title => some (id, title)
  | _, _ => none

def depsMarker : Text := " deps:".toList

/-- The dependencies after the marker: the entries that are not blank, stripped. -/
def dependencyIds (depText : Text) : List String :=
  ((depText.splitOn ',').map strip |>.filter (fun d => d ≠ [])).map String.ofList

def autoId (n : ℕ) : String := "c" ++ toString (n + 1)

/-- The chunk of a content line, after `n` others. -/
def chunkOfLine (n : ℕ) (line : Text) : TitledChunk :=
  match structured line with
  | none => ⟨⟨autoId n, []⟩, line⟩
  | some (id, title) => match partition depsMarker title with
    | none => ⟨⟨String.ofList id, []⟩, strip title⟩
    | some (title, depText) => ⟨⟨String.ofList id, dependencyIds depText⟩, strip title⟩

def isContent (line : Text) : Bool := line ≠ [] && !(['#'].isPrefixOf line)

def parseLine (chunks : List TitledChunk) (raw : Text) : List TitledChunk :=
  if isContent (strip raw) then chunks ++ [chunkOfLine chunks.length (strip raw)] else chunks

def noChunks (text : Text) : EngineError where
  message := "requirement '".toList ++ text.take 40 ++ "' declares no chunks.".toList
  remediation := "Add at least one non-comment line to the requirement file.".toList

def parseChunks (text : Text) : Except EngineError (List TitledChunk) :=
  match (splitlines text).foldl parseLine [] with
  | [] => .error (noChunks text)
  | chunks => .ok chunks

/-! ## What is parsed -/

/-- The non-blank lines that are no comments, stripped. -/
def contentLines (text : Text) : List Text := ((splitlines text).map strip).filter isContent

/-- The chunks of content lines, each numbered by its place. -/
def chunksOf (lines : List Text) : List TitledChunk := lines.mapIdx chunkOfLine

theorem foldl_parseLine : ∀ (raws : List Text) (lines : List Text),
    raws.foldl parseLine (chunksOf lines) = chunksOf (lines ++ (raws.map strip).filter isContent) := by
  intro raws
  induction raws with
  | nil => intro lines; rw [List.map_nil, List.filter_nil, List.append_nil]; rfl
  | cons raw raws ih =>
    intro lines
    rw [List.foldl_cons, List.map_cons, List.filter_cons, parseLine]
    by_cases hc : isContent (strip raw) = true
    · have hsnoc : chunksOf lines ++ [chunkOfLine (chunksOf lines).length (strip raw)] = chunksOf (lines ++ [strip raw]) := by
        rw [chunksOf, chunksOf, List.mapIdx_concat, List.length_mapIdx]
      rw [if_pos hc, if_pos hc, hsnoc, ih, List.append_assoc]
      rfl
    · rw [if_neg hc, if_neg hc, ih]

/-- **One chunk for each content line**, in their order. -/
theorem parseChunks_eq_ok {text : Text} {chunks : List TitledChunk} (h : parseChunks text = .ok chunks) :
    chunks = chunksOf (contentLines text) := by
  have hfold : (splitlines text).foldl parseLine [] = chunksOf (contentLines text) := foldl_parseLine (splitlines text) []
  unfold parseChunks at h
  rw [hfold] at h
  split at h
  · cases h
  · cases h
    rfl

/-! ## Ids -/

/-- The id a content line writes down. -/
def explicitId (line : Text) : Option String := (structured line).map (fun p => String.ofList p.1)

theorem chunkId_chunkOfLine (n : ℕ) (line : Text) :
    (chunkOfLine n line).chunk.chunkId = (explicitId line).getD (autoId n) := by
  unfold chunkOfLine explicitId
  split
  · rename_i h
    rw [h]
    rfl
  · rename_i h
    rw [h]
    split <;> rfl

theorem autoId_inj {m n : ℕ} (h : autoId m = autoId n) : m = n :=
  Nat.succ_injective (Lib.numbered_injective _ h)

/-- **No two ids meet**: the ids written down are distinct, and none is the number of a line without one. -/
def IdsApart (lines : List Text) : Prop :=
  (lines.filterMap explicitId).Nodup ∧
    ∀ n line, lines[n]? = some line → explicitId line = none → autoId n ∉ lines.filterMap explicitId

theorem getElem?_chunkIds (lines : List Text) (n : ℕ) :
    ((chunksOf lines).map (fun c => c.chunk.chunkId))[n]? =
      lines[n]?.map (fun line => (explicitId line).getD (autoId n)) := by
  rw [List.getElem?_map, chunksOf, List.getElem?_mapIdx, Option.map_map]
  congr 1
  funext line
  exact chunkId_chunkOfLine n line

theorem idsApart_of_nodup {lines : List Text} (hn : ((chunksOf lines).map (fun c => c.chunk.chunkId)).Nodup) :
    IdsApart lines := by
  have hplace : ∀ i j (cid : String), (lines[i]?.map fun line => (explicitId line).getD (autoId i)) = some cid →
      (lines[j]?.map fun line => (explicitId line).getD (autoId j)) = some cid → i = j := by
    intro i j cid hi hj
    rw [← getElem?_chunkIds] at hi hj
    exact (List.getElem?_inj (List.getElem?_eq_some_iff.1 hi).1 hn).1 (hi.trans hj.symm)
  refine ⟨?_, fun n line hline hnone hmem => ?_⟩
  · rw [List.Nodup, List.pairwise_filterMap, List.pairwise_iff_getElem]
    intro i j hi hj hij a ha a' ha' he
    have hsame := hplace i j a (by rw [List.getElem?_eq_getElem hi, Option.map_some, ha]; rfl)
      (by rw [List.getElem?_eq_getElem hj, Option.map_some, ha', he]; rfl)
    omega
  · obtain ⟨other, hother, ha⟩ := List.mem_filterMap.1 hmem
    obtain ⟨m, hm⟩ := List.mem_iff_getElem?.1 hother
    have hmn := hplace m n (autoId n) (by rw [hm, Option.map_some, ha]; rfl) (by rw [hline, Option.map_some, hnone]; rfl)
    rw [hmn, hline, Option.some.injEq] at hm
    rw [← hm, hnone] at ha
    cases ha

theorem IdsApart.ne_autoId {lines : List Text} (h : IdsApart lines) {line line' : Text} {a : String} {n : ℕ}
    (hline : line ∈ lines) (ha : explicitId line = some a) (hn : lines[n]? = some line') (hnone : explicitId line' = none) :
    a ≠ autoId n := by
  rintro rfl
  exact h.2 n line' hn hnone (List.mem_filterMap.2 ⟨line, hline, ha⟩)

theorem IdsApart.nodup {lines : List Text} (h : IdsApart lines) :
    ((chunksOf lines).map (fun c => c.chunk.chunkId)).Nodup := by
  have hlen : ((chunksOf lines).map (fun c => c.chunk.chunkId)).length = lines.length := by
    rw [List.length_map, chunksOf, List.length_mapIdx]
  have hexplicit := h.1
  rw [List.Nodup, List.pairwise_filterMap, List.pairwise_iff_getElem] at hexplicit
  refine List.nodup_iff_getElem?_ne_getElem?.2 (fun i j hij hj hsame => ?_)
  rw [hlen] at hj
  have hi : i < lines.length := hij.trans hj
  have hli := List.getElem?_eq_getElem hi
  have hlj := List.getElem?_eq_getElem hj
  rw [getElem?_chunkIds, getElem?_chunkIds, hli, hlj, Option.map_some, Option.map_some, Option.some.injEq] at hsame
  cases hei : explicitId lines[i] with
  | some a =>
    rw [hei] at hsame
    cases hej : explicitId lines[j] with
    | some b =>
      rw [hej] at hsame
      exact hexplicit i j hi hj hij a hei b hej hsame
    | none =>
      rw [hej] at hsame
      exact h.ne_autoId (List.getElem_mem hi) hei hlj hej hsame
  | none =>
    rw [hei] at hsame
    cases hej : explicitId lines[j] with
    | some b =>
      rw [hej] at hsame
      exact h.ne_autoId (List.getElem_mem hj) hej hli hei hsame.symm
    | none =>
      rw [hej] at hsame
      exact absurd (autoId_inj hsame) (Nat.ne_of_lt hij)

/-- **The ids of the chunks are distinct exactly when the ids of the lines are apart.** -/
theorem nodup_chunkIds_iff (lines : List Text) :
    ((chunksOf lines).map (fun c => c.chunk.chunkId)).Nodup ↔ IdsApart lines :=
  ⟨idsApart_of_nodup, IdsApart.nodup⟩

/-- **No line is lost exactly when the ids are apart.**  Of a text that is parsed and whose graph is accepted: the ids of
the chunks are distinct and the order holds one chunk for each content line. -/
theorem parseChunks_keeps_lines_iff {text : Text} {chunks : List TitledChunk} {limit : Nat} {dag : ChunkDAG}
    (hp : parseChunks text = .ok chunks) (hb : ChunkDAG.build limit (chunks.map TitledChunk.chunk) = .ok dag) :
    ((chunks.map (fun c => c.chunk.chunkId)).Nodup ∧
      dag.topologicalOrder.Perm (List.range (contentLines text).length)) ↔ IdsApart (contentLines text) := by
  have hchunks := parseChunks_eq_ok hp
  rw [← nodup_chunkIds_iff, ← hchunks]
  constructor
  · exact And.left
  · intro hn
    have hids : ((chunks.map TitledChunk.chunk).map Chunk.chunkId).Nodup := by
      rw [List.map_map]
      exact hn
    have hlen : (chunks.map TitledChunk.chunk).length = (contentLines text).length := by
      rw [List.length_map, hchunks, chunksOf, List.length_mapIdx]
    refine ⟨hn, (List.perm_ext_iff_of_nodup (ChunkDAG.nodup_topologicalOrder hb) List.nodup_range).2 (fun i => ?_)⟩
    rw [List.mem_range, ← hlen]
    exact ⟨ChunkDAG.lt_of_mem_graph_order hb, ChunkDAG.mem_graph_order hb hids⟩

/-- Ids of both kinds, a comment, a blank line and a dependency on a number. -/
def mixedText : Text := "a: one\n# no\n\ntwo\nb: three deps: c2, a".toList

theorem parseChunks_keeps_lines_mixed : ∃ chunks dag, parseChunks mixedText = .ok chunks ∧
    ChunkDAG.build 900 (chunks.map TitledChunk.chunk) = .ok dag ∧
    chunks.map (fun c => c.chunk) = [⟨"a", []⟩, ⟨"c2", []⟩, ⟨"b", ["c2", "a"]⟩] ∧
    (chunks.map (fun c => c.chunk.chunkId)).Nodup ∧
    dag.topologicalOrder.Perm (List.range (contentLines mixedText).length) := by
  have hp : parseChunks mixedText =
      .ok [⟨⟨"a", []⟩, ['o', 'n', 'e']⟩, ⟨⟨"c2", []⟩, ['t', 'w', 'o']⟩, ⟨⟨"b", ["c2", "a"]⟩, ['t', 'h', 'r', 'e', 'e']⟩] := by
    decide +kernel
  have hok : (ChunkDAG.build 900 [⟨"a", []⟩, ⟨"c2", []⟩, ⟨"b", ["c2", "a"]⟩]).toOption.isSome = true := by decide +kernel
  have hapart : IdsApart (contentLines mixedText) := by
    rw [← nodup_chunkIds_iff, ← parseChunks_eq_ok hp]
    decide
  cases hb : ChunkDAG.build 900 [⟨"a", []⟩, ⟨"c2", []⟩, ⟨"b", ["c2", "a"]⟩] with
  | error e =>
    rw [hb] at hok
    cases hok
  | ok dag => exact ⟨_, dag, hp, hb, rfl, (parseChunks_keeps_lines_iff hp hb).2 hapart⟩

/-- **A line lost without an error**: the second line is numbered as the first one calls itself. -/
theorem parseChunks_loses_line : ∃ chunks dag, parseChunks "c2: one\ntwo".toList = .ok chunks ∧
    ChunkDAG.build 900 (chunks.map TitledChunk.chunk) = .ok dag ∧ (contentLines "c2: one\ntwo".toList).length = 2 ∧
    dag.topologicalOrder.length = 1 ∧
    ¬ ((chunks.map (fun c => c.chunk.chunkId)).Nodup ∧
      dag.topologicalOrder.Perm (List.range (contentLines "c2: one\ntwo".toList).length)) := by
  have hp : parseChunks "c2: one\ntwo".toList =
      .ok [⟨⟨"c2", []⟩, ['o', 'n', 'e']⟩, ⟨⟨"c2", []⟩, ['t', 'w', 'o']⟩] := by decide +kernel
  have hlines : (contentLines "c2: one\ntwo".toList).length = 2 := by decide +kernel
  have horder : (ChunkDAG.build 900 [⟨"c2", []⟩, ⟨"c2", []⟩]).toOption.any
      (fun dag => decide (dag.topologicalOrder.length = 1)) = true := by decide +kernel
  cases hb : ChunkDAG.build 900 [⟨"c2", []⟩, ⟨"c2", []⟩] with
  | error e =>
    rw [hb] at horder
    cases horder
  | ok dag =>
    rw [hb] at horder
    refine ⟨_, dag, hp, hb, hlines, of_decide_eq_true horder, fun h => ?_⟩
    exact absurd h.1 (by decide)

end Engine
end DevHarness
