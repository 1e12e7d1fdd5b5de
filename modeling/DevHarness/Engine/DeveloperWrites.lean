import DevHarness.Contracts
import DevHarness.Lib.Placing
/-!
# DeveloperWrites — a developer's write map applied (`engine/nodes/developer.py`, `engine/worker_workspace.py`)

Each path of the map is resolved, held against the worktree root and written before the next is looked at.  So an escape
leaves the disk alone exactly when it is the map's first entry, and a map without an escape is written exactly when each
path leads somewhere and the files fit (`contained_iff`).  The root is what `root_for(chunk).resolve()` gives for a bound
worker; no write changes a link, so it is the same at every entry.
-/
namespace DevHarness
namespace Engine

/-- A Python string by its code points: a reply may hold unpaired surrogates. -/
abbrev PyStr := List Nat

def py (s : String) : PyStr := s.toList.map Char.toNat

def isSurrogate (x : Nat) : Bool := 0xD800 ≤ x ∧ x ≤ 0xDFFF

/-- What `write_text` can encode. -/
def encodable (content : PyStr) : Bool := content.all (fun x => !isSurrogate x)

/-- What a system call takes as a name: no NUL, and no surrogate but those that stand for a byte. -/
def nameable (name : PyStr) : Bool :=
  name.all (fun x => x ≠ 0 ∧ (isSurrogate x = true → 0xDC80 ≤ x ∧ x ≤ 0xDCFF))

abbrev Worktree := Lib.Disk PyStr PyStr

/-- `is_absolute`. -/
def isAbsolute (relativePath : PyStr) : Bool := relativePath.head? = some '/'.toNat

def pathStep (name : PyStr) : Option (Lib.Step PyStr) :=
  if name = [] ∨ name = py "." then none else if name = py ".." then some .up else some (.down name)

def pathSteps (relativePath : PyStr) : List (Lib.Step PyStr) := (relativePath.splitOn '/'.toNat).filterMap pathStep

/-- `root / candidate`. -/
def joined (root : List PyStr) (relativePath : PyStr) : Lib.Target PyStr :=
  ⟨true, Lib.Disk.stepsTo root ++ pathSteps relativePath⟩

inductive WriteError where
  -- `WorkspaceEscapeError`
  | absolute (relativePath : PyStr)
  | escapes (relativePath : PyStr)
  -- what `resolve` raises
  | unresolved (e : Lib.ResolveError)
  -- what `mkdir` and `write_text` raise
  | os (e : Lib.OsError)
  deriving DecidableEq

def WriteError.isEscape : WriteError → Bool
  | .absolute _ => true
  | .escapes _ => true
  | _ => false

/-- The message of a `WorkspaceEscapeError`, and its remediation. -/
def WriteError.message : WriteError → Option (PyStr × String)
  | .absolute p => some (py "absolute write path '" ++ p ++ py "' is not allowed.", "Constrain the worker to its worktree root.")
  | .escapes p => some (py "write path '" ++ p ++ py "' escapes the worktree root.", "Constrain the worker to its worktree root.")
  | _ => none

/-- `write_path`. -/
def writePath (d : Worktree) (root : List PyStr) (relativePath : PyStr) : Except WriteError (List PyStr) :=
  if isAbsolute relativePath = true then .error (.absolute relativePath)
  else match d.resolve nameable (joined root relativePath) with
    | .error e => .error (.unresolved e)
    | .ok path => if root <:+ path then .ok path else .error (.escapes relativePath)

/-- The loop over the map. -/
def applyWrites (root : List PyStr) : List (PyStr × PyStr) → Worktree → Except WriteError Unit × Worktree
  | [], d => (.ok (), d)
  | (relativePath, content) :: writes, d => match writePath d root relativePath with
    | .error e => (.error e, d)
    | .ok path => match d.place encodable [] path content with
      | (.error e, d') => (.error (.os e), d')
      | (.ok _, d') => applyWrites root writes d'

structure Developed where
  outcome : Except WriteError Unit
  status : ChunkStatus
  disk : Worktree

/-- `DeveloperNode.__call__`, from the map its client's reply parses to. -/
def developerNode (root : List PyStr) (writes : List (PyStr × PyStr)) (status : ChunkStatus) (d : Worktree) : Developed :=
  if status = .completed then ⟨.ok (), .completed, d⟩
  else match applyWrites root writes d with
    | (.ok _, d') => ⟨.ok (), .completed, d'⟩
    | (.error e, d') => ⟨.error e, .inProgress, d'⟩

/-! ## What the node is for -/

/-- Where a path leads when all links on it are followed. -/
def Leads (links : Lib.Links PyStr) (root : List PyStr) (relativePath : PyStr) (path : List PyStr) : Prop :=
  Lib.realPath links nameable (joined root relativePath) = .reached path

/-- A path is absolute, or resolves outside the root. -/
def Escapes (d : Worktree) (root : List PyStr) (relativePath : PyStr) : Prop :=
  isAbsolute relativePath = true ∨
    ∃ path, d.resolve nameable (joined root relativePath) = .ok path ∧ ¬ root <:+ path

/-- **The files of a map**: where its paths lead, with their contents. -/
def files (places : List (List PyStr)) (writes : List (PyStr × PyStr)) : List (List PyStr × PyStr) :=
  places.zip (writes.map Prod.snd)

/-- **All or nothing, inside the root**: an escape is refused with the disk as it was; otherwise exactly the mapped files
are written, all under the root. -/
structure Contained (d : Worktree) (root : List PyStr) (writes : List (PyStr × PyStr)) (r : Developed) : Prop where
  refuses : (∃ w ∈ writes, Escapes d root w.1) → (∃ e, r.outcome = .error e ∧ e.isEscape = true) ∧ r.disk = d
  applies : (∀ w ∈ writes, ¬ Escapes d root w.1) → r.outcome = .ok () ∧ ∃ places,
    List.Forall₂ (fun w path => Leads d.links root w.1 path) writes places ∧ (∀ path ∈ places, root <:+ path) ∧
      r.disk.links = d.links ∧ r.disk.nodes = Lib.Disk.laid (files places writes) d.nodes

/-- **When it is**: a map with an escape begins with one, and a map without leads to files that fit. -/
structure Applicable (d : Worktree) (root : List PyStr) (writes : List (PyStr × PyStr)) : Prop where
  escapeFirst : (∃ w ∈ writes, Escapes d root w.1) → ∃ w, writes.head? = some w ∧ Escapes d root w.1
  fits : (∀ w ∈ writes, ¬ Escapes d root w.1) → ∃ places,
    List.Forall₂ (fun w path => Leads d.links root w.1 path) writes places ∧
      Lib.Disk.Fit encodable (files places writes) d

/-! ## One path -/

theorem escapes_of_writePath {d : Worktree} {root : List PyStr} {relativePath : PyStr} {e : WriteError}
    (h : writePath d root relativePath = .error e) (he : e.isEscape = true) : Escapes d root relativePath := by
  unfold writePath at h
  split at h
  · exact Or.inl (by assumption)
  · split at h
    · cases h
      cases he
    · rename_i path hres
      split at h
      · cases h
      · exact Or.inr ⟨path, hres, by assumption⟩

theorem writePath_of_escapes {d : Worktree} {root : List PyStr} {relativePath : PyStr}
    (h : Escapes d root relativePath) : ∃ e, writePath d root relativePath = .error e ∧ e.isEscape = true := by
  unfold writePath
  split
  · exact ⟨_, rfl, rfl⟩
  · rename_i hrel
    obtain ⟨path, hres, hout⟩ := h.resolve_left hrel
    rw [hres]
    dsimp only
    rw [if_neg hout]
    exact ⟨_, rfl, rfl⟩

/-- A path that leads somewhere and does not escape leads under the root. -/
theorem under_of_leads {d : Worktree} {root : List PyStr} {relativePath : PyStr} {path : List PyStr}
    (h : ¬ Escapes d root relativePath) (hl : Leads d.links root relativePath path) : root <:+ path := by
  by_contra hout
  exact h (Or.inr ⟨path, Lib.Disk.resolve_of_realPath hl, hout⟩)

theorem writePath_of_leads {d : Worktree} {root : List PyStr} {relativePath : PyStr} {path : List PyStr}
    (habs : isAbsolute relativePath = false) (hl : Leads d.links root relativePath path) (hunder : root <:+ path) :
    writePath d root relativePath = .ok path := by
  rw [writePath, if_neg (by rw [habs]; simp), Lib.Disk.resolve_of_realPath hl]
  exact if_pos hunder

/-! ## The loop -/

theorem applyWrites_grows (root : List PyStr) : ∀ (writes : List (PyStr × PyStr)) (d : Worktree),
    Lib.Disk.Grows d (applyWrites root writes d).2
  | [], d => Lib.Disk.Grows.refl d
  | (relativePath, content) :: writes, d => by
    rw [applyWrites]
    split
    · exact Lib.Disk.Grows.refl d
    · rename_i path _
      have hplace := (Lib.Disk.place_grows d encodable [] path content).1
      split
      · rename_i heq
        rw [heq] at hplace
        exact hplace
      · rename_i d' heq
        rw [heq] at hplace
        exact hplace.trans (applyWrites_grows root writes d')

/-- **An escape that is not first** is not refused with the disk as it was. -/
theorem escapes_head {d : Worktree} {root : List PyStr} {w : PyStr × PyStr} {writes : List (PyStr × PyStr)} {e : WriteError}
    (herror : (applyWrites root (w :: writes) d).1 = .error e) (he : e.isEscape = true)
    (hdisk : (applyWrites root (w :: writes) d).2 = d) : Escapes d root w.1 := by
  rw [applyWrites] at herror hdisk
  cases hpath : writePath d root w.1 with
  | error e' =>
    rw [hpath] at herror
    cases herror
    exact escapes_of_writePath hpath he
  | ok path =>
    rw [hpath] at herror hdisk
    dsimp only at herror hdisk
    obtain ⟨-, hlog⟩ := Lib.Disk.place_grows d encodable [] path w.2
    cases hplace : d.place encodable [] path w.2 with
    | mk outcome d' =>
      rw [hplace] at herror hdisk hlog
      cases outcome with
      | error e' =>
        cases herror
        cases he
      | ok u =>
        -- the file is written, and nothing takes it back
        have hle := (applyWrites_grows root writes d').log.length_le
        have hlt : d.log.length < d'.log.length := hlog rfl
        dsimp only at hdisk
        rw [hdisk] at hle
        omega

/-- A path of the map that stays under the root, and where it leads. -/
structure Under (links : Lib.Links PyStr) (root : List PyStr) (w : PyStr × PyStr) (path : List PyStr) : Prop where
  relative : isAbsolute w.1 = false
  leads : Leads links root w.1 path
  under : root <:+ path

/-- **A map that stays under the root** is placed file by file. -/
theorem applyWrites_of_under {root : List PyStr} : ∀ {writes : List (PyStr × PyStr)} {places : List (List PyStr)}
    {d : Worktree}, List.Forall₂ (Under d.links root) writes places →
      (applyWrites root writes d).2 = (Lib.Disk.placeAll encodable [] (files places writes) d).2 ∧
      ((applyWrites root writes d).1 = .ok () ↔
        (Lib.Disk.placeAll encodable [] (files places writes) d).1 = .ok ())
  | [], [], d, .nil => ⟨rfl, iff_of_true rfl rfl⟩
  | w :: writes, path :: places, d, .cons hw h => by
    have hcons : files (path :: places) (w :: writes) = (path, w.2) :: files places writes := rfl
    rw [hcons, applyWrites, Lib.Disk.placeAll, writePath_of_leads hw.relative hw.leads hw.under]
    have hgrows := (Lib.Disk.place_grows d encodable [] path w.2).1
    dsimp only
    cases hplace : d.place encodable [] path w.2 with
    | mk outcome d' =>
      rw [hplace] at hgrows
      cases outcome with
      | error e => exact ⟨rfl, iff_of_false (by simp) (by simp)⟩
      | ok u => exact applyWrites_of_under (hgrows.links ▸ h)

theorem developerNode_eq (root : List PyStr) (writes : List (PyStr × PyStr)) {status : ChunkStatus} (d : Worktree)
    (h : status ≠ .completed) : (developerNode root writes status d).outcome = (applyWrites root writes d).1 ∧
      (developerNode root writes status d).disk = (applyWrites root writes d).2 := by
  rw [developerNode, if_neg h]
  cases applyWrites root writes d with
  | mk outcome d' => cases outcome <;> exact ⟨rfl, rfl⟩

theorem exists_under {links : Lib.Links PyStr} {root : List PyStr} {writes : List (PyStr × PyStr)}
    {places : List (List PyStr)} (h : List.Forall₂ (Under links root) writes places) :
    ∀ path ∈ places, ∃ w, Under links root w path := by
  induction h with
  | nil => exact fun path hpath => by cases hpath
  | @cons w path writes places hw h ih => exact List.forall_mem_cons.2 ⟨⟨w, hw⟩, ih⟩

theorem plain_of_under {links : Lib.Links PyStr} {root : List PyStr} {writes : List (PyStr × PyStr)}
    {places : List (List PyStr)} (h : List.Forall₂ (Under links root) writes places) :
    ∀ f ∈ files places writes, Lib.Plain links nameable f.1 := by
  intro f hf
  obtain ⟨w, hw⟩ := exists_under h f.1 (List.of_mem_zip hf).1
  exact Lib.plain_of_realPath hw.leads

/-- **The paths of a map without an escape** that lead anywhere lead under the root. -/
theorem under_of_no_escape {d : Worktree} {root : List PyStr} {writes : List (PyStr × PyStr)} {places : List (List PyStr)}
    (hno : ∀ w ∈ writes, ¬ Escapes d root w.1)
    (h : List.Forall₂ (fun w path => Leads d.links root w.1 path) writes places) :
    List.Forall₂ (Under d.links root) writes places := by
  induction h with
  | nil => exact .nil
  | @cons w path writes places hw h ih =>
    have hno' := hno w List.mem_cons_self
    refine .cons ⟨?_, hw, under_of_leads hno' hw⟩ (ih (fun w' hw' => hno w' (List.mem_cons_of_mem w hw')))
    exact Bool.eq_false_iff.2 (fun habs => hno' (Or.inl habs))

/-- **The node is all or nothing, inside its root, exactly when** an escape of the map is its first entry and a map without
one leads, past no looping link, to files that fit. -/
theorem contained_iff (d : Worktree) (root : List PyStr) (writes : List (PyStr × PyStr)) (status : ChunkStatus)
    (hstatus : status ≠ .completed) :
    Contained d root writes (developerNode root writes status d) ↔ Applicable d root writes := by
  obtain ⟨houtcome, hdisk⟩ := developerNode_eq root writes d hstatus
  constructor
  · intro h
    refine ⟨fun hescape => ?_, fun hno => ?_⟩
    · obtain ⟨⟨e, he, hkind⟩, hsame⟩ := h.refuses hescape
      rw [houtcome] at he
      rw [hdisk] at hsame
      cases writes with
      | nil =>
        obtain ⟨w, hw, -⟩ := hescape
        cases hw
      | cons w writes => exact ⟨w, rfl, escapes_head he hkind hsame⟩
    · obtain ⟨hok, places, hleads, -⟩ := h.applies hno
      rw [houtcome] at hok
      have hunder := under_of_no_escape hno hleads
      have hall := (applyWrites_of_under hunder).2.1 hok
      exact ⟨places, hleads, (Lib.Disk.placeAll_spec [] _ d (plain_of_under hunder)).1.1 hall⟩
  · intro h
    refine ⟨fun hescape => ?_, fun hno => ?_⟩
    · obtain ⟨w, hw, hfirst⟩ := h.escapeFirst hescape
      rw [houtcome, hdisk]
      cases writes with
      | nil => cases hw
      | cons w' writes =>
        cases hw
        obtain ⟨e, hpath, he⟩ := writePath_of_escapes hfirst
        rw [applyWrites, hpath]
        exact ⟨⟨e, rfl, he⟩, rfl⟩
    · obtain ⟨places, hleads, hfit⟩ := h.fits hno
      have hunder := under_of_no_escape hno hleads
      obtain ⟨hok, hlaid⟩ := Lib.Disk.placeAll_spec [] _ d (plain_of_under hunder)
      obtain ⟨hsame, hiff⟩ := applyWrites_of_under hunder
      rw [houtcome, hdisk, hsame]
      refine ⟨hiff.2 (hok.2 hfit), places, hleads, fun path hpath => ?_, (hlaid hfit).links, (hlaid hfit).nodes⟩
      obtain ⟨w, hw⟩ := exists_under hunder path hpath
      exact hw.under

/-- A worktree at `/w` with a link inside it, one out of it and one that leads back to itself. -/
def linkedTree : Worktree where
  links := [([py "lib", py "w"], ⟨false, [.down (py "src")]⟩), ([py "out", py "w"], ⟨true, [.down (py "out")]⟩),
    ([py "loop", py "w"], ⟨false, [.down (py "loop")]⟩)]
  nodes := fun p => if p = [] ∨ p = [py "w"] ∨ p = [py "src", py "w"] ∨ p = [py "out"] then some .dir else none
  root := if_pos (Or.inl rfl)
  permits := fun _ => true
  log := []

/-- Through the link to `src`, and into a directory to be made. -/
theorem contained_iff_linked : Contained linkedTree [py "w"] [(py "lib/app.py", py "x"), (py "doc/../doc/a", py "y")]
    (developerNode [py "w"] [(py "lib/app.py", py "x"), (py "doc/../doc/a", py "y")] .pending linkedTree) := by
  have hno : ∀ rel path, (writePath linkedTree [py "w"] rel).toOption = some path → ¬ Escapes linkedTree [py "w"] rel := by
    intro rel path h hescape
    obtain ⟨e, he, -⟩ := writePath_of_escapes hescape
    rw [he] at h
    cases h
  have hall : ∀ w ∈ [(py "lib/app.py", py "x"), (py "doc/../doc/a", py "y")], ¬ Escapes linkedTree [py "w"] w.1 := by
    refine List.forall_mem_cons.2 ⟨hno _ [py "app.py", py "src", py "w"] (by decide +kernel), List.forall_mem_cons.2
      ⟨hno _ [py "a", py "doc", py "w"] (by decide +kernel), fun w hw => by cases hw⟩⟩
  refine (contained_iff _ _ _ _ (by decide)).2 ⟨fun ⟨w, hw, hescape⟩ => absurd hescape (hall w hw), fun _ =>
    ⟨[[py "app.py", py "src", py "w"], [py "a", py "doc", py "w"]], .cons ?_ (.cons ?_ .nil), by decide +kernel⟩⟩
  · show Lib.realPath _ _ _ = _
    decide +kernel
  · show Lib.realPath _ _ _ = _
    decide +kernel

/-- **An escape after a good path**: the good file is there when the escape is refused. -/
theorem not_contained_late : ∃ r, developerNode [py "w"] [(py "ok.txt", py "x"), (py "../evil", py "y")] .pending linkedTree = r ∧
    r.disk.nodes [py "ok.txt", py "w"] = some (.file (py "x")) ∧
      ¬ Contained linkedTree [py "w"] [(py "ok.txt", py "x"), (py "../evil", py "y")] r := by
  refine ⟨_, rfl, by decide +kernel, fun h => ?_⟩
  have hescape : Escapes linkedTree [py "w"] (py "../evil") := by
    refine Or.inr ⟨[py "evil"], ?_, by decide⟩
    exact Lib.Disk.resolve_of_realPath (show Lib.realPath _ _ _ = _ by decide +kernel)
  obtain ⟨-, hsame⟩ := h.refuses ⟨_, List.mem_cons_of_mem _ List.mem_cons_self, hescape⟩
  have hlog : (developerNode [py "w"] [(py "ok.txt", py "x"), (py "../evil", py "y")] .pending linkedTree).disk.log.length = 1 := by
    decide +kernel
  rw [hsame] at hlog
  cases hlog

-- Past the looping link nothing is resolved, so the link out of the worktree is left on the path and the system follows it.
example : (applyWrites [py "w"] [(py "loop/../out/evil", py "x")] linkedTree).2.nodes [py "evil", py "out"] =
    some (.file (py "x")) := by decide +kernel

end Engine
end DevHarness
