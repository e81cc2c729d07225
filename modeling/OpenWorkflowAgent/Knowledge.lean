/-
# The knowledge index

`KnowledgeService.reload` of knowledge.py brings the stored chunks in line with the documents under
a root.  It reads the manifest once, skips every file whose manifest entry names its present
content, and otherwise deletes the file's chunks (only if the manifest has the file), parses it,
embeds and inserts chunk by chunk, and writes the manifest entry last.  Parsing and embedding can
fail at any point, and nothing undoes what the failed reload did: on PostgreSQL every statement is
committed, on SQLite the open transaction stays with the connection.

The later reload trusts the manifest.  `Trusted` says what that takes, and a reload that succeeds
leaves the index equal to the documents exactly then.
-/
import Mathlib
import OpenWorkflowAgent.Tables

namespace Knowledge

/-! ## Files and chunks -/

/-- The whitespace of `str.split()`. -/
def isSpace (c : Char) : Bool :=
  let n := c.toNat
  (9 ≤ n && n ≤ 13) || (28 ≤ n && n ≤ 32) || n == 0x85 || n == 0xA0 || n == 0x1680 ||
    (0x2000 ≤ n && n ≤ 0x200A) || n == 0x2028 || n == 0x2029 || n == 0x202F || n == 0x205F ||
    n == 0x3000

/-- `text.split()`. -/
def words (text : String) : List String :=
  ((text.toList.splitOnP isSpace).filter fun w => !w.isEmpty).map String.ofList

/-- `_chunks`: a window of `size` words at every `max(1, size - overlap)`-th word. -/
def chunks (size overlap : ℕ) (text : String) : List String :=
  let all := words text
  let step := max 1 (size - overlap)
  (List.range ((all.length + step - 1) / step)).map fun k =>
    " ".intercalate ((all.drop (k * step)).take size)

/-- `path.suffix.lower()`: from the last dot of the last part, unless it begins or ends it. -/
def suffix (path : String) : String :=
  let name := (path.toList.reverse.takeWhile (· ≠ '/')).reverse
  let ext := (name.reverse.takeWhile (· ≠ '.')).reverse
  if ext.length + 1 < name.length ∧ 0 < ext.length then (String.ofList ('.' :: ext)).toLower else ""

/-- The files that are read. -/
def supported (path : String) : Bool :=
  suffix path ∈ [".txt", ".md", ".markdown", ".json", ".yaml", ".yml", ".pdf"]

/-- The configuration of a service, and the libraries it calls: the digest of a file, the text
that parsing gives when it succeeds, and the vector of a chunk. -/
structure Service (Content Digest Vector : Type) where
  chunkSize : ℕ
  chunkOverlap : ℕ
  embeddingIdentity : String
  pypdfVersion : Option String
  yamlVersion : String
  digest : Content → Digest
  parse : String → Content → String
  embed : String → Vector

/-- What a manifest entry says about a file. -/
structure IndexIdentity (Digest : Type) where
  hash : Digest
  parser : String
  chunking : String
  embedding : String
  deriving DecidableEq

/-- A row of `chunks`. -/
structure ChunkRow (Vector : Type) where
  path : String
  content : String
  vector : Vector
  deriving DecidableEq

/-- The two tables.  The time of an entry is left out: nothing reads it. -/
structure Index (Digest Vector : Type) where
  manifest : Table String (IndexIdentity Digest)
  chunks : List (ChunkRow Vector)

/-- The files under the root, in the order of the walk. -/
structure Documents (Content : Type) where
  files : List (String × Content)
  nodup : (files.map Prod.fst).Nodup

/-- What can fail during a reload. -/
inductive Operation where
  | parse (path : String)
  /-- The embedding of a file's chunk with this index. -/
  | embed (path : String) (index : ℕ)
  deriving DecidableEq, Repr

def Operation.path : Operation → String
  | .parse path => path
  | .embed path _ => path

structure Counts where
  added : ℕ
  updated : ℕ
  deleted : ℕ
  unchanged : ℕ
  deriving DecidableEq, Repr

variable {Content Digest Vector : Type}

/-- `current`: the supported files. -/
def Documents.current (docs : Documents Content) : List (String × Content) :=
  docs.files.filter fun f => supported f.1

namespace Service

/-- `_parser_identity`. -/
def parserIdentity (service : Service Content Digest Vector) (path : String) : String :=
  if suffix path = ".pdf" then "pypdf@" ++ service.pypdfVersion.getD "missing"
  else if suffix path = ".json" then "stdlib-json"
  else if suffix path = ".yaml" ∨ suffix path = ".yml" then "pyyaml@" ++ service.yamlVersion
  else "text"

/-- `_chunking_identity`. -/
def chunkingIdentity (service : Service Content Digest Vector) : String :=
  "whitespace-window:" ++ toString service.chunkSize ++ "+" ++ toString service.chunkOverlap

/-- `index_identity`. -/
def identity (service : Service Content Digest Vector) (path : String) (content : Content) :
    IndexIdentity Digest where
  hash := service.digest content
  parser := service.parserIdentity path
  chunking := service.chunkingIdentity
  embedding := service.embeddingIdentity

def row (service : Service Content Digest Vector) (path chunk : String) : ChunkRow Vector :=
  ⟨path, chunk, service.embed chunk⟩

def fileChunks (service : Service Content Digest Vector) (path : String) (content : Content) :
    List String :=
  chunks service.chunkSize service.chunkOverlap (service.parse path content)

def rowsOf (service : Service Content Digest Vector) (path : String) (content : Content) :
    List (ChunkRow Vector) :=
  (service.fileChunks path content).map (service.row path)

/-- Embeds and inserts the chunks of a file from the `index`-th on. -/
def insertChunks (service : Service Content Digest Vector) (fault : Operation → Bool)
    (path : String) : ℕ → List String → List (ChunkRow Vector) →
      List (ChunkRow Vector) × Option Operation
  | _, [], rows => (rows, none)
  | index, chunk :: rest, rows =>
    if fault (.embed path index) then (rows, some (.embed path index))
    else service.insertChunks fault path (index + 1) rest (rows ++ [service.row path chunk])

/-- `DELETE FROM chunks WHERE path = ?`. -/
def deleteChunks (path : String) (index : Index Digest Vector) : Index Digest Vector :=
  { index with chunks := index.chunks.filter fun r => r.path ≠ path }

/-- A file that has to be indexed; `existing` is the manifest as the reload first read it. -/
def reindex (service : Service Content Digest Vector) (fault : Operation → Bool)
    (existing : Table String (IndexIdentity Digest)) (path : String) (content : Content)
    (index : Index Digest Vector) : Index Digest Vector × Option Operation :=
  let cleared := if (existing.lookup path).isSome then deleteChunks path index else index
  if fault (.parse path) then (cleared, some (.parse path))
  else
    let inserted := service.insertChunks fault path 0 (service.fileChunks path content)
      cleared.chunks
    match inserted.2 with
    | some failed => ({ cleared with chunks := inserted.1 }, some failed)
    | none =>
      ({ manifest := cleared.manifest.put path (service.identity path content)
         chunks := inserted.1 }, none)

def reloadFiles [DecidableEq Digest] (service : Service Content Digest Vector) (fault : Operation → Bool)
    (existing : Table String (IndexIdentity Digest)) :
    List (String × Content) → Counts → Index Digest Vector →
      Index Digest Vector × Except Operation Counts
  | [], counts, index => (index, .ok counts)
  | (path, content) :: files, counts, index =>
    if existing.lookup path = some (service.identity path content) then
      service.reloadFiles fault existing files { counts with unchanged := counts.unchanged + 1 }
        index
    else
      let counted :=
        if (existing.lookup path).isSome then { counts with updated := counts.updated + 1 }
        else { counts with added := counts.added + 1 }
      let indexed := service.reindex fault existing path content index
      match indexed.2 with
      | some failed => (indexed.1, .error failed)
      | none => service.reloadFiles fault existing files counted indexed.1

/-- Removes the chunks and the entries of the files that are gone. -/
def removeGone : List String → Index Digest Vector → Index Digest Vector
  | [], index => index
  | path :: gone, index =>
    removeGone gone
      { manifest := (deleteChunks path index).manifest.keepWhere fun p _ => p ≠ path
        chunks := (deleteChunks path index).chunks }

/-- The files of the manifest that are not among the current ones. -/
def gone (existing : Table String (IndexIdentity Digest)) (current : List (String × Content)) :
    List String :=
  (existing.rows.map Prod.fst).filter fun p => p ∉ current.map Prod.fst

/-- `_reload` on what the connection sees; the root may not exist. -/
def reloadIndex [DecidableEq Digest] (service : Service Content Digest Vector) (fault : Operation → Bool)
    (root : Option (Documents Content)) (index : Index Digest Vector) :
    Index Digest Vector × Except Operation Counts :=
  match root with
  | none => (index, .ok ⟨0, 0, 0, 0⟩)
  | some docs =>
    let existing := index.manifest
    let indexed := service.reloadFiles fault existing docs.current ⟨0, 0, 0, 0⟩ index
    match indexed.2 with
    | .error failed => (indexed.1, .error failed)
    | .ok counts =>
      (removeGone (gone existing docs.current) indexed.1,
        .ok { counts with deleted := (gone existing docs.current).length })

end Service

/-! ## The two commit modes -/

/-- `DatasourceKind`. -/
inductive DatasourceKind where
  | sqlite
  | postgresql
  deriving DecidableEq

/-- What the connection sees and what is committed. -/
structure Storage (Digest Vector : Type) where
  visible : Index Digest Vector
  committed : Index Digest Vector

def Storage.initial : Storage Digest Vector := ⟨⟨∅, []⟩, ⟨∅, []⟩⟩

/-- A reload.  PostgreSQL commits every statement; on SQLite only the end of a reload commits, with
everything that earlier failed reloads left in the open transaction. -/
def reload [DecidableEq Digest] (service : Service Content Digest Vector) (kind : DatasourceKind)
    (fault : Operation → Bool) (root : Option (Documents Content))
    (storage : Storage Digest Vector) : Storage Digest Vector × Except Operation Counts :=
  let outcome := service.reloadIndex fault root storage.visible
  let committed :=
    if kind = .sqlite ∧ outcome.2.isOk = false then storage.committed else outcome.1
  (⟨outcome.1, committed⟩, outcome.2)

/-- What happens to the index over time. -/
inductive Event (Content : Type) where
  /-- A reload of the documents as they are then. -/
  | reload (root : Option (Documents Content)) (fault : Operation → Bool)
  /-- A new connection, which sees what was committed. -/
  | reopen

def step [DecidableEq Digest] (service : Service Content Digest Vector) (kind : DatasourceKind)
    (storage : Storage Digest Vector) : Event Content → Storage Digest Vector
  | .reload root fault => (reload service kind fault root storage).1
  | .reopen => ⟨storage.committed, storage.committed⟩

def run [DecidableEq Digest] (service : Service Content Digest Vector) (kind : DatasourceKind)
    (history : List (Event Content)) : Storage Digest Vector :=
  history.foldl (step service kind) .initial

/-! ## What a reload is for -/

def Index.stored (index : Index Digest Vector) (path : String) : List (ChunkRow Vector) :=
  index.chunks.filter fun r => r.path = path

/-- The index is that of the documents: the chunks of every current file, each once, no others, and
the manifest lists exactly the current files. -/
structure Indexed (service : Service Content Digest Vector) (index : Index Digest Vector)
    (docs : Documents Content) : Prop where
  current : ∀ f ∈ docs.current, index.stored f.1 = service.rowsOf f.1 f.2
  others : ∀ path, path ∉ docs.current.map Prod.fst → index.stored path = []
  manifest : ∀ path, (index.manifest.lookup path).isSome ↔ path ∈ docs.current.map Prod.fst

/-- What a reload relies on: a manifest entry for the present content of a file stands for the
chunks of that content, and a file without an entry has no chunks. -/
structure Trusted (service : Service Content Digest Vector) (index : Index Digest Vector)
    (docs : Documents Content) : Prop where
  unchanged : ∀ f ∈ docs.current,
    index.manifest.lookup f.1 = some (service.identity f.1 f.2) →
      index.stored f.1 = service.rowsOf f.1 f.2
  unlisted : ∀ path, index.manifest.lookup path = none → index.stored path = []

/-- Every entry stands for the chunks of some content, and nothing else is stored. -/
def Consistent (service : Service Content Digest Vector) (index : Index Digest Vector) : Prop :=
  ∀ path, match index.manifest.lookup path with
    | none => index.stored path = []
    | some entry => ∃ content, entry = service.identity path content ∧
        index.stored path = service.rowsOf path content

/-- A failure that comes before anything was changed for the file at hand: its parsing or first
embedding, and the manifest does not have the file. -/
def Operation.Untouched (existing : Table String (IndexIdentity Digest)) (op : Operation) : Prop :=
  existing.lookup op.path = none ∧ (op = .parse op.path ∨ op = .embed op.path 0)

/-- Every failed reload of the history failed before it changed anything for the file at hand. -/
def CleanFrom [DecidableEq Digest] (service : Service Content Digest Vector) (kind : DatasourceKind) :
    Storage Digest Vector → List (Event Content) → Prop
  | _, [] => True
  | storage, event :: history =>
    (match event with
      | .reopen => True
      | .reload root fault => ∀ failed, (reload service kind fault root storage).2 = .error failed →
          failed.Untouched storage.visible.manifest) ∧
    CleanFrom service kind (step service kind storage event) history

/-! ## Inserting the chunks of one file -/

theorem stored_deleteChunks_self (path : String) (index : Index Digest Vector) :
    (Service.deleteChunks path index).stored path = [] := by
  simp [Index.stored, Service.deleteChunks, List.filter_filter]

variable {path other : String}

theorem stored_deleteChunks_ne (h : other ≠ path) (index : Index Digest Vector) :
    (Service.deleteChunks path index).stored other = index.stored other := by
  simp only [Index.stored, Service.deleteChunks, List.filter_filter]
  refine List.filter_congr fun r _ => ?_
  by_cases hr : r.path = other
  · simp [hr, h]
  · simp [hr]

theorem filter_rowsOf_self (service : Service Content Digest Vector) (path : String)
    (texts : List String) :
    (texts.map (service.row path)).filter (fun r => r.path = path) =
      texts.map (service.row path) := by
  rw [List.filter_eq_self]
  intro r hr
  obtain ⟨chunk, -, rfl⟩ := List.mem_map.mp hr
  simp [Service.row]

theorem filter_rowsOf_ne (service : Service Content Digest Vector) (h : other ≠ path)
    (texts : List String) :
    (texts.map (service.row path)).filter (fun r => r.path = other) = [] := by
  rw [List.filter_eq_nil_iff]
  intro r hr
  obtain ⟨chunk, -, rfl⟩ := List.mem_map.mp hr
  simp [Service.row, h.symm]

/-- Inserting appends rows of the file; all of them if nothing fails, none if the first embedding
does. -/
theorem insertChunks_spec (service : Service Content Digest Vector) (fault : Operation → Bool)
    (path : String) (texts : List String) : ∀ (index : ℕ) (rows : List (ChunkRow Vector)),
    ∃ done, (service.insertChunks fault path index texts rows).1 =
        rows ++ done.map (service.row path) ∧
      ((service.insertChunks fault path index texts rows).2 = none → done = texts) ∧
      ∀ failed, (service.insertChunks fault path index texts rows).2 = some failed →
        ∃ k, failed = .embed path (index + k) ∧ done.length = k := by
  induction texts with
  | nil =>
    intro index rows
    exact ⟨[], by simp [Service.insertChunks], fun _ => rfl, by simp [Service.insertChunks]⟩
  | cons chunk _ ih =>
    intro index rows
    rw [Service.insertChunks]
    split
    · refine ⟨[], by simp, by simp, fun failed h => ⟨0, ?_, rfl⟩⟩
      exact (Option.some.inj h).symm
    · obtain ⟨done, hrows, hall, hfailed⟩ := ih (index + 1) (rows ++ [service.row path chunk])
      refine ⟨chunk :: done, ?_, fun h => by rw [hall h], fun failed h => ?_⟩
      · rw [hrows, List.map_cons, List.append_assoc, List.singleton_append]
      · obtain ⟨k, rfl, hk⟩ := hfailed failed h
        exact ⟨k + 1, by rw [Nat.add_right_comm, Nat.add_assoc], by rw [List.length_cons, hk]⟩

/-! ## What the manifest vouches for -/

variable {service : Service Content Digest Vector} {index : Index Digest Vector}

theorem Consistent.trusted (hdigest : Function.Injective service.digest)
    (h : Consistent service index) (docs : Documents Content) : Trusted service index docs := by
  refine ⟨fun f hf hentry => ?_, fun path hnone => ?_⟩
  · have := h f.1
    rw [hentry] at this
    obtain ⟨content, heq, hstored⟩ := this
    have hcontent : f.2 = content := hdigest (congrArg IndexIdentity.hash heq)
    rw [hstored, hcontent]
  · have := h path
    rwa [hnone] at this

/-- Consistency of the part of the index that belongs to one file. -/
def ConsistentAt (service : Service Content Digest Vector) (index : Index Digest Vector)
    (path : String) : Prop :=
  match index.manifest.lookup path with
  | none => index.stored path = []
  | some entry => ∃ content, entry = service.identity path content ∧
      index.stored path = service.rowsOf path content

theorem ConsistentAt.congr {index' : Index Digest Vector} (h : ConsistentAt service index path)
    (hstored : index'.stored path = index.stored path)
    (hentry : index'.manifest.lookup path = index.manifest.lookup path) :
    ConsistentAt service index' path := by
  rw [ConsistentAt, hentry, hstored]
  exact h

theorem consistent_initial (service : Service Content Digest Vector) :
    Consistent service (⟨∅, []⟩ : Index Digest Vector) := fun _ => rfl

variable {existing : Table String (IndexIdentity Digest)}

theorem mem_gone {current : List (String × Content)} :
    path ∈ Service.gone existing current ↔
      (existing.lookup path).isSome ∧ path ∉ current.map Prod.fst := by
  have hkeys : path ∈ existing.rows.map Prod.fst ↔ (existing.lookup path).isSome := by
    rw [List.mem_map, Option.isSome_iff_exists]
    constructor
    · rintro ⟨⟨p, entry⟩, hmem, rfl⟩
      exact ⟨entry, Table.mem_rows.mp hmem⟩
    · rintro ⟨entry, h⟩
      exact ⟨(path, entry), Table.mem_rows.mpr h, rfl⟩
  rw [Service.gone, List.mem_filter, hkeys, decide_eq_true_eq]

/-! ## One file -/

theorem reindex_other (service : Service Content Digest Vector) (fault : Operation → Bool)
    (existing : Table String (IndexIdentity Digest)) (path : String) (content : Content)
    (index : Index Digest Vector) (h : other ≠ path) :
    (service.reindex fault existing path content index).1.stored other = index.stored other ∧
      (service.reindex fault existing path content index).1.manifest.lookup other =
        index.manifest.lookup other := by
  set cleared := if (existing.lookup path).isSome then Service.deleteChunks path index else index
    with hcleared
  have hstored : cleared.stored other = index.stored other := by
    rw [hcleared]
    split
    · exact stored_deleteChunks_ne h index
    · rfl
  have hmanifest : cleared.manifest = index.manifest := by
    rw [hcleared]
    split <;> rfl
  obtain ⟨done, hrows, -, -⟩ :=
    insertChunks_spec service fault path (service.fileChunks path content) 0 cleared.chunks
  have happend : (cleared.chunks ++ done.map (service.row path)).filter
      (fun r => r.path = other) = index.stored other := by
    rw [List.filter_append, filter_rowsOf_ne service h, List.append_nil]
    exact hstored
  simp only [Service.reindex, ← hcleared]
  split
  · exact ⟨hstored, by rw [hmanifest]⟩
  · split
    · exact ⟨by simpa only [Index.stored, hrows] using happend, by rw [hmanifest]⟩
    · refine ⟨by simpa only [Index.stored, hrows] using happend, ?_⟩
      rw [Table.lookup_put_ne h, hmanifest]

variable {content : Content}

/-- A failure before anything was changed for the file leaves the index as it was. -/
theorem reindex_untouched (service : Service Content Digest Vector) (fault : Operation → Bool)
    (index : Index Digest Vector) {failed : Operation}
    (h : (service.reindex fault existing path content index).2 = some failed)
    (hun : failed.Untouched existing) :
    (service.reindex fault existing path content index).1 = index := by
  have hpath : failed.path = path := by
    simp only [Service.reindex] at h
    split at h
    · rw [← Option.some.inj h]
      rfl
    · split at h
      · rename_i op hop
        obtain ⟨done, -, -, hfailed⟩ := insertChunks_spec service fault path
          (service.fileChunks path content) 0
          (if (existing.lookup path).isSome then Service.deleteChunks path index else index).chunks
        obtain ⟨k, rfl, -⟩ := hfailed op hop
        rw [← Option.some.inj h]
        rfl
      · cases h
  obtain ⟨hnone, hop⟩ := hun
  rw [hpath] at hnone hop
  simp only [Service.reindex, hnone, Option.isSome_none, Bool.false_eq_true, if_false] at h ⊢
  split at h
  · rename_i hparse
    rw [if_pos hparse]
  · rename_i hparse
    rw [if_neg hparse]
    split at h
    · rename_i op hop'
      obtain ⟨done, hrows, -, hfailed⟩ := insertChunks_spec service fault path
        (service.fileChunks path content) 0 index.chunks
      obtain ⟨k, rfl, hk⟩ := hfailed op hop'
      have hzero : k = 0 := by
        have := Option.some.inj h
        rw [← this] at hop
        rcases hop with hop | hop
        · cases hop
        · simpa using hop
      rw [hzero, List.length_eq_zero_iff] at hk
      rw [hrows, hk, List.map_nil, List.append_nil]
    · cases h

theorem removeGone_spec (paths : List String) : ∀ (index : Index Digest Vector) (path : String),
    (Service.removeGone paths index).stored path =
        (if path ∈ paths then [] else index.stored path) ∧
      (Service.removeGone paths index).manifest.lookup path =
        if path ∈ paths then none else index.manifest.lookup path := by
  induction paths with
  | nil => intro index path; simp [Service.removeGone]
  | cons first rest ih =>
    intro index path
    rw [Service.removeGone, (ih _ path).1, (ih _ path).2]
    by_cases hrest : path ∈ rest
    · simp [hrest]
    · rw [if_neg hrest, if_neg hrest, Table.lookup_keepWhere]
      by_cases hfirst : path = first
      · subst hfirst
        rw [if_pos List.mem_cons_self, if_pos List.mem_cons_self]
        refine ⟨stored_deleteChunks_self path index, ?_⟩
        rw [Option.filter_eq_none_iff]
        simp
      · rw [if_neg (by simp [hfirst, hrest]), if_neg (by simp [hfirst, hrest])]
        refine ⟨stored_deleteChunks_ne hfirst index, ?_⟩
        show (index.manifest.lookup path).filter _ = _
        cases index.manifest.lookup path with
        | none => rfl
        | some => simp [Option.filter, hfirst]

variable [DecidableEq Digest]

/-- The rows of a file after it was indexed, from those before. -/
def settled (service : Service Content Digest Vector)
    (existing : Table String (IndexIdentity Digest)) (path : String) (content : Content)
    (rows : List (ChunkRow Vector)) : List (ChunkRow Vector) :=
  if existing.lookup path = some (service.identity path content) then rows
  else if (existing.lookup path).isSome then service.rowsOf path content
  else rows ++ service.rowsOf path content

/-- A file that was indexed has its rows, after whatever was left of it, and its entry. -/
theorem reindex_done (service : Service Content Digest Vector) (fault : Operation → Bool)
    (index : Index Digest Vector)
    (hne : existing.lookup path ≠ some (service.identity path content))
    (h : (service.reindex fault existing path content index).2 = none) :
    (service.reindex fault existing path content index).1.stored path =
        settled service existing path content (index.stored path) ∧
      (service.reindex fault existing path content index).1.manifest.lookup path =
        some (service.identity path content) := by
  rw [settled, if_neg hne]
  set cleared := if (existing.lookup path).isSome then Service.deleteChunks path index else index
    with hcleared
  obtain ⟨done, hrows, hall, -⟩ :=
    insertChunks_spec service fault path (service.fileChunks path content) 0 cleared.chunks
  have hstored : cleared.stored path =
      if (existing.lookup path).isSome then [] else index.stored path := by
    rw [hcleared]
    split
    · exact stored_deleteChunks_self path index
    · rfl
  simp only [Service.reindex, ← hcleared] at h ⊢
  split at h
  · cases h
  · split at h
    · cases h
    · rename_i hparse _ hinserted
      rw [if_neg hparse]
      refine ⟨?_, Table.lookup_put_self⟩
      have hdone := hall hinserted
      subst hdone
      show List.filter _ _ = _
      rw [hrows, List.filter_append, filter_rowsOf_self]
      show cleared.stored path ++ _ = _
      rw [hstored]
      split <;> rfl

/-! ## The loop over the files -/

theorem reloadFiles_done (service : Service Content Digest Vector) (fault : Operation → Bool)
    (existing : Table String (IndexIdentity Digest)) (files : List (String × Content)) :
    ∀ (counts : Counts) (index : Index Digest Vector), (files.map Prod.fst).Nodup →
      (∀ f ∈ files, index.manifest.lookup f.1 = existing.lookup f.1) →
      ∀ {result}, (service.reloadFiles fault existing files counts index).2 = .ok result →
      (∀ f ∈ files,
        (service.reloadFiles fault existing files counts index).1.stored f.1 =
            settled service existing f.1 f.2 (index.stored f.1) ∧
          (service.reloadFiles fault existing files counts index).1.manifest.lookup f.1 =
            some (service.identity f.1 f.2)) ∧
      ∀ path, path ∉ files.map Prod.fst →
        (service.reloadFiles fault existing files counts index).1.stored path =
            index.stored path ∧
          (service.reloadFiles fault existing files counts index).1.manifest.lookup path =
            index.manifest.lookup path := by
  induction files with
  | nil =>
    intro counts index _ _ result _
    exact ⟨by simp, fun path _ => ⟨rfl, rfl⟩⟩
  | cons file files ih =>
    obtain ⟨path, content⟩ := file
    intro counts index hnodup hagree result hok
    rw [List.map_cons, List.nodup_cons] at hnodup
    obtain ⟨hfresh, hnodup⟩ := hnodup
    have hagreeTail : ∀ f ∈ files, index.manifest.lookup f.1 = existing.lookup f.1 :=
      fun f hf => hagree f (List.mem_cons_of_mem _ hf)
    have hneTail : ∀ f ∈ files, f.1 ≠ path := fun f hf heq =>
      hfresh (List.mem_map.mpr ⟨f, hf, heq⟩)
    rw [Service.reloadFiles] at hok ⊢
    split at hok
    · -- the entry names the content: nothing is done for this file
      rename_i hsame
      rw [if_pos hsame]
      obtain ⟨hfiles, hothers⟩ := ih _ index hnodup hagreeTail hok
      refine ⟨fun f hf => ?_, fun p hp => ?_⟩
      · rcases List.mem_cons.mp hf with rfl | hf
        · obtain ⟨hstored, hmanifest⟩ := hothers path hfresh
          rw [hstored, hmanifest, settled, if_pos hsame, hagree _ List.mem_cons_self]
          exact ⟨rfl, hsame⟩
        · exact hfiles f hf
      · rw [List.map_cons, List.mem_cons, not_or] at hp
        exact hothers p hp.2
    · rename_i hdiffers
      rw [if_neg hdiffers]
      cases hindexed : (service.reindex fault existing path content index).2 with
      | some =>
        simp only [hindexed] at hok
        cases hok
      | none =>
        simp only [hindexed] at hok ⊢
        obtain ⟨hstored, hentry⟩ := reindex_done service fault index hdiffers hindexed
        have hother {p : String} (hp : p ≠ path) :=
          reindex_other service fault existing path content index hp
        obtain ⟨hfiles, hothers⟩ := ih _ (service.reindex fault existing path content index).1
          hnodup (fun f hf => by rw [(hother (hneTail f hf)).2]; exact hagreeTail f hf) hok
        refine ⟨fun f hf => ?_, fun p hp => ?_⟩
        · rcases List.mem_cons.mp hf with rfl | hf
          · rw [(hothers path hfresh).1, (hothers path hfresh).2]
            exact ⟨hstored, hentry⟩
          · rw [(hfiles f hf).1, (hother (hneTail f hf)).1]
            exact ⟨rfl, (hfiles f hf).2⟩
        · rw [List.map_cons, List.mem_cons, not_or] at hp
          rw [(hothers p hp.2).1, (hothers p hp.2).2]
          exact hother hp.1

/-! ## A whole reload -/

theorem nodup_current (docs : Documents Content) : (docs.current.map Prod.fst).Nodup :=
  docs.nodup.sublist (List.filter_sublist.map Prod.fst)

/-- What a reload that succeeds makes of every file's rows and entry. -/
theorem reloadIndex_done (service : Service Content Digest Vector) (fault : Operation → Bool)
    (docs : Documents Content) (index : Index Digest Vector) {result : Counts}
    (h : (service.reloadIndex fault (some docs) index).2 = .ok result) :
    (∀ f ∈ docs.current,
      (service.reloadIndex fault (some docs) index).1.stored f.1 =
          settled service index.manifest f.1 f.2 (index.stored f.1) ∧
        (service.reloadIndex fault (some docs) index).1.manifest.lookup f.1 =
          some (service.identity f.1 f.2)) ∧
    ∀ path, path ∉ docs.current.map Prod.fst →
      (service.reloadIndex fault (some docs) index).1.stored path =
          (if (index.manifest.lookup path).isSome then [] else index.stored path) ∧
        (service.reloadIndex fault (some docs) index).1.manifest.lookup path = none := by
  simp only [Service.reloadIndex] at h ⊢
  cases hfiles : (service.reloadFiles fault index.manifest docs.current ⟨0, 0, 0, 0⟩ index).2 with
  | error =>
    simp only [hfiles] at h
    cases h
  | ok =>
    simp only
    obtain ⟨hcurrent, hothers⟩ := reloadFiles_done service fault index.manifest docs.current
      ⟨0, 0, 0, 0⟩ index (nodup_current docs) (fun _ _ => rfl) hfiles
    refine ⟨fun f hf => ?_, fun path hpath => ?_⟩
    · have hkept : f.1 ∉ Service.gone index.manifest docs.current := fun hgone =>
        (mem_gone.mp hgone).2 (List.mem_map_of_mem hf)
      rw [(removeGone_spec _ _ f.1).1, (removeGone_spec _ _ f.1).2, if_neg hkept, if_neg hkept]
      exact hcurrent f hf
    · rw [(removeGone_spec _ _ path).1, (removeGone_spec _ _ path).2, (hothers path hpath).1,
        (hothers path hpath).2]
      simp only [mem_gone, hpath, not_false_eq_true, and_true, true_and]
      cases index.manifest.lookup path <;> simp

/-- **A reload that succeeds is exact precisely from an index it may trust.** -/
theorem indexed_iff_trusted (service : Service Content Digest Vector) (fault : Operation → Bool)
    (docs : Documents Content) (index : Index Digest Vector) {result : Counts}
    (h : (service.reloadIndex fault (some docs) index).2 = .ok result) :
    Indexed service (service.reloadIndex fault (some docs) index).1 docs ↔
      Trusted service index docs := by
  obtain ⟨hcurrent, hothers⟩ := reloadIndex_done service fault docs index h
  constructor
  · intro hindexed
    refine ⟨fun f hf hentry => ?_, fun path hnone => ?_⟩
    · have := hindexed.current f hf
      rwa [(hcurrent f hf).1, settled, if_pos hentry] at this
    · by_cases hmem : path ∈ docs.current.map Prod.fst
      · obtain ⟨f, hf, rfl⟩ := List.mem_map.mp hmem
        have := hindexed.current f hf
        rw [(hcurrent f hf).1, settled, hnone, if_neg (by simp), if_neg (by simp)] at this
        exact List.append_left_eq_self.mp this
      · have := hindexed.others path hmem
        rwa [(hothers path hmem).1, hnone, if_neg (by simp)] at this
  · intro htrusted
    refine ⟨fun f hf => ?_, fun path hmem => ?_, fun path => ?_⟩
    · rw [(hcurrent f hf).1, settled]
      split
      · exact htrusted.unchanged f hf ‹_›
      · split
        · rfl
        · rename_i hlisted
          rw [htrusted.unlisted f.1 (by simpa using hlisted), List.nil_append]
    · rw [(hothers path hmem).1]
      split
      · rfl
      · rename_i hlisted
        exact htrusted.unlisted path (by simpa using hlisted)
    · by_cases hmem : path ∈ docs.current.map Prod.fst
      · obtain ⟨f, hf, rfl⟩ := List.mem_map.mp hmem
        rw [(hcurrent f hf).2]
        simpa using hmem
      · rw [(hothers path hmem).2]
        simpa using hmem

/-! ## Histories whose failures change nothing for the file at hand -/

variable {fault : Operation → Bool}

/-- A file that is indexed from a consistent state is indexed exactly. -/
theorem Consistent.reindex (h : Consistent service index)
    (hne : existing.lookup path ≠ some (service.identity path content))
    (hagree : index.manifest.lookup path = existing.lookup path)
    (hdone : (service.reindex fault existing path content index).2 = none) :
    Consistent service (service.reindex fault existing path content index).1 := by
  intro p
  by_cases hp : p = path
  · subst hp
    obtain ⟨hstored, hentry⟩ := reindex_done service fault index hne hdone
    rw [hentry]
    refine ⟨content, rfl, ?_⟩
    rw [hstored, settled, if_neg hne]
    split
    · rfl
    · rename_i hlisted
      have := h p
      rw [hagree, Option.not_isSome_iff_eq_none.mp hlisted] at this
      simp only at this
      rw [this, List.nil_append]
  · obtain ⟨hstored, hentry⟩ := reindex_other service fault existing path content index hp
    exact ConsistentAt.congr (h p) hstored hentry

/-- The loop keeps the index consistent if its failure, if any, changed nothing for the file at
hand. -/
theorem Consistent.reloadFiles (files : List (String × Content)) :
    ∀ (counts : Counts) (index : Index Digest Vector),
    Consistent service index → (files.map Prod.fst).Nodup →
    (∀ f ∈ files, index.manifest.lookup f.1 = existing.lookup f.1) →
    (∀ failed, (service.reloadFiles fault existing files counts index).2 = .error failed →
      failed.Untouched existing) →
    Consistent service (service.reloadFiles fault existing files counts index).1 := by
  induction files with
  | nil => exact fun counts index h _ _ _ => h
  | cons file files ih =>
    obtain ⟨path, content⟩ := file
    intro counts index h hnodup hagree hclean
    rw [List.map_cons, List.nodup_cons] at hnodup
    obtain ⟨hfresh, hnodup⟩ := hnodup
    have hagreeTail : ∀ f ∈ files, index.manifest.lookup f.1 = existing.lookup f.1 :=
      fun f hf => hagree f (List.mem_cons_of_mem _ hf)
    rw [Service.reloadFiles] at hclean ⊢
    split at hclean
    · rename_i hsame
      rw [if_pos hsame]
      exact ih _ index h hnodup hagreeTail hclean
    · rename_i hdiffers
      rw [if_neg hdiffers]
      cases hindexed : (service.reindex fault existing path content index).2 with
      | some failed =>
        simp only [hindexed] at hclean ⊢
        rw [reindex_untouched service fault index hindexed (hclean failed rfl)]
        exact h
      | none =>
        simp only [hindexed] at hclean ⊢
        refine ih _ _ (h.reindex hdiffers (hagree _ List.mem_cons_self) hindexed) hnodup ?_ hclean
        intro f hf
        have hne : f.1 ≠ path := fun heq => hfresh (List.mem_map.mpr ⟨f, hf, heq⟩)
        rw [(reindex_other service fault existing path content index hne).2]
        exact hagreeTail f hf

theorem Consistent.reloadIndex (hdigest : Function.Injective service.digest)
    {root : Option (Documents Content)} (h : Consistent service index)
    (hclean : ∀ failed, (service.reloadIndex fault root index).2 = .error failed →
      failed.Untouched index.manifest) :
    Consistent service (service.reloadIndex fault root index).1 := by
  cases root with
  | none => exact h
  | some docs =>
    cases hresult : (service.reloadIndex fault (some docs) index).2 with
    | error =>
      simp only [Service.reloadIndex] at hclean hresult ⊢
      cases hfiles : (service.reloadFiles fault index.manifest docs.current
          ⟨0, 0, 0, 0⟩ index).2 with
      | error failed' =>
        simp only [hfiles] at hclean ⊢
        refine Consistent.reloadFiles docs.current _ index h (nodup_current docs)
          (fun _ _ => rfl) fun f hf => ?_
        rw [hfiles] at hf
        exact hclean f hf
      | ok counts =>
        simp only [hfiles] at hresult
        cases hresult
    | ok =>
      -- a reload that succeeds leaves exactly the rows of the documents
      have hindexed := (indexed_iff_trusted service fault docs index hresult).mpr
        (h.trusted hdigest docs)
      obtain ⟨hcurrent, hothers⟩ := reloadIndex_done service fault docs index hresult
      intro path
      by_cases hmem : path ∈ docs.current.map Prod.fst
      · obtain ⟨f, hf, rfl⟩ := List.mem_map.mp hmem
        rw [(hcurrent f hf).2]
        exact ⟨f.2, rfl, hindexed.current f hf⟩
      · rw [(hothers path hmem).2]
        exact hindexed.others path hmem

/-- Both what is visible and what is committed is consistent after a clean step. -/
theorem consistent_run (hdigest : Function.Injective service.digest) (kind : DatasourceKind)
    (history : List (Event Content)) : ∀ storage : Storage Digest Vector,
    Consistent service storage.visible → Consistent service storage.committed →
    CleanFrom service kind storage history →
    Consistent service (history.foldl (step service kind) storage).visible := by
  induction history with
  | nil => exact fun storage hvisible _ _ => hvisible
  | cons event _ ih =>
    intro storage hvisible hcommitted hclean
    obtain ⟨hevent, hrest⟩ := hclean
    rw [List.foldl_cons]
    cases event with
    | reopen => exact ih _ hcommitted hcommitted hrest
    | reload =>
      have hafter := hvisible.reloadIndex hdigest hevent
      refine ih _ hafter ?_ hrest
      show Consistent service (if _ then storage.committed else _)
      split
      · exact hcommitted
      · exact hafter

/-! ## Reloads after any history -/

/-- A service for samples: a file is its own text and digest, one word a chunk. -/
def sampleService : Service String String ℕ where
  chunkSize := 1
  chunkOverlap := 0
  embeddingIdentity := "lengths/1"
  pypdfVersion := none
  yamlVersion := "6.0"
  digest := id
  parse := fun _ content => content
  embed := String.length

def sampleDocuments (text : String) : Documents String := ⟨[("a.txt", text)], by simp⟩

end Knowledge
