import HashJoin.CompareResults
import HashJoin.PrettyPrint

/-!
# The directory of cached tables

A program built with `TEAMOPT_BUILD_CACHE` executes no plan: it dumps the table of each scan and the
result of each query to files, unless they are there. The program that runs the queries afterwards
loads its inputs and the expected results from these files. The name of the file of a scan is made
of its table and the hash of its filter.
-/

namespace HashJoin

open Bytes

/-- `FNVHash::hash`. -/
def FNVHash.hash (key : List UInt8) : UInt64 :=
  key.foldl (fun h p => (h ^^^ p.toUInt64) * 1099511628211) 14695981039346656037

def tablePath (table : String) (fnvhash : UInt64) : String :=
  "cache/" ++ table ++ "_" ++ toString fnvhash.toNat ++ ".tbl"

def resultPath (name : String) : String := "cache/" ++ name ++ ".tbl"

/-- The exceptions of `from_cache`. The text of `std::length_error` is the library's. -/
def CacheFault.toFault (path : String) : CacheFault → Fault
  | .runtimeError => .runtimeError ("File is empty: " ++ path)
  | .lengthError => .runtimeError "length_error"
  | .outOfFile => .outOfRange

/-- A query with its name and what DuckDB returns for it. -/
structure NamedQuery where
  name : String
  call : QueryCall
  duckdbResults : MaterializedQueryResult

/-- What stays from one query to the next while the cache is built. -/
structure CacheState where
  caches : Caches := {}
  dir : String → Option (List UInt8) := fun _ => none

section Build

-- How `fmt` prints a double.
variable (formatDouble : UInt64 → List UInt8)

/-- The text of a filter that is hashed. The null child of a `LogicalOperation` is not printed. -/
def filStr : Option Filter → Except Fault (List UInt8)
  | none => .ok (ascii "No filter")
  | some (.statement stmt) => .ok (stmt.prettyPrint formatDouble 0)
  | some .nullChild => .error .outOfRange

def filename (input : TableEntity × Option Filter) : Except Fault String := do
  let str ← filStr formatDouble input.2
  .ok (tablePath input.1.table (FNVHash.hash str))

variable (n : Nat) (likeMatch : List UInt8 → List UInt8 → Bool) (stod : Stod)
  (files : String → Option (List (List UInt8)))

/-- The table of a scan is dumped if its file is not there. -/
def buildInput (env : LoadEnv) (input : TableEntity × Option Filter) (state : CacheState) :
    Except Fault CacheState := do
  let path ← filename formatDouble input
  match state.dir path with
  | some _ => .ok state
  | none =>
    match loadInput n likeMatch stod files env input state.caches with
    | (.error e, _) => .error e
    | (.ok table, caches) => .ok ⟨caches, emplace state.dir path (DumpTable.dump table)⟩

/-- The result of a query is dumped if its file is not there. -/
def buildResult (fresh : Nat → Nat → Page) (query : NamedQuery) (state : CacheState) :
    Except Fault CacheState :=
  match state.dir (resultPath query.name) with
  | some _ => .ok state
  | none => do
    let table ← DumpTable.ofResult fresh query.duckdbResults
    .ok { state with dir := emplace state.dir (resultPath query.name) (DumpTable.dump table) }

variable (columnToTables : String → Option (List String))

/-- `recurse` while the cache is built. -/
def buildLoader (env : Nat → LoadEnv) : Loader CacheState :=
  fun inputId => buildInput formatDouble n likeMatch stod files (env inputId)

/-- `run` while the cache is built. -/
def NamedQuery.build (query : NamedQuery) (env : RunEnv) (state : CacheState) :
    Except Fault CacheState := do
  let sql ← parseSQL columnToTables env.parse query.call.query
  let (_, state) ← loadJoinPipeline (buildLoader formatDouble n likeMatch stod files env.load) sql
    env.order query.call.plan state
  buildResult (env.fresh 0) query state

/-- The queries of a run that builds the cache. An exception ends it. -/
def builds (calls : List (NamedQuery × RunEnv)) : Except Fault CacheState :=
  calls.foldlM (fun state call =>
    call.1.build formatDouble n likeMatch stod files columnToTables call.2 state) {}

/-- The scans of a query: the tables of its plan with their filters. -/
def NamedQuery.scans (query : NamedQuery) (env : RunEnv) : List (TableEntity × Option Filter) :=
  match parseSQL columnToTables env.parse query.call.query with
  | .ok sql => query.call.plan.inputs sql
  | .error _ => []

/-! ## Running from the files -/

variable (maxSize : Nat) (dir : String → Option (List UInt8))

/-- `from_cache`, with the pages that its columns point to. A type that is no `DataType` is not
modelled. -/
def cachedFile (path : String) : Except Fault ColumnarTable :=
  match dir path with
  | none => .error (.runtimeError ("Table file does not exist: " ++ path))
  | some content => do
    let cached ← (fromCache maxSize content).mapError (CacheFault.toFault path)
    match cached.view content with
    | some table => .ok table
    | none => .error .outOfRange

def cachedInput (input : TableEntity × Option Filter) : Except Fault ColumnarTable := do
  let path ← filename formatDouble input
  cachedFile maxSize dir path

/-- `recurse` with the cache. -/
def cachedLoader : Loader (List ColumnarTable) := fun _ input tables => do
  let table ← cachedInput formatDouble maxSize dir input
  .ok (tables ++ [table])

/-- `run` with the cache: the plan is executed, and its result compared. -/
def NamedQuery.run (numThreads : Nat) (sched : List Nat) (query : NamedQuery) (env : RunEnv)
    (global : GlobalAllocator) : Except Fault Bool := do
  let sql ← parseSQL columnToTables env.parse query.call.query
  let ((ret, root), inputs) ←
    loadJoinPipeline (cachedLoader formatDouble maxSize dir) sql env.order query.call.plan []
  let (results, _) ← execute ⟨ret.nodes, inputs, root⟩ numThreads env.node env.fresh global
  let expected ← cachedFile maxSize dir (resultPath query.name)
  compareWithCache n sched expected results

end Build

theorem NamedQuery.scans_eq {columnToTables : String → Option (List String)} {query : NamedQuery}
    {env : RunEnv} {sql : ParsedSQL} {ret : Pipeline} {root : Nat} {σ : Type} {load : Loader σ}
    {order : IterationOrder Edge} {state state' : σ}
    (hparse : parseSQL columnToTables env.parse query.call.query = .ok sql)
    (hload : loadJoinPipeline load sql order query.call.plan state = .ok ((ret, root), state')) :
    query.scans columnToTables env = ret.inputs := by
  obtain ⟨columns, hspec⟩ := loadJoinPipeline_spec hload
  have hinputs : ret.inputs = query.call.plan.inputs sql := hspec.inputs
  unfold NamedQuery.scans
  rw [hparse, hinputs]

/-! ## File names -/

/-- The last occurrence of a value cuts a list in two. -/
theorem last_cancel {α : Type} {c : α} {a b x y : List α} (hx : c ∉ x) (hy : c ∉ y)
    (h : a ++ c :: x = b ++ c :: y) : a = b ∧ x = y := by
  rcases List.append_eq_append_iff.mp h with ⟨m, rfl, hm⟩ | ⟨m, rfl, hm⟩
  · cases m with
    | nil => exact ⟨(List.append_nil a).symm, (List.cons.inj hm).2⟩
    | cons d m =>
      have hm := (List.cons.inj hm).2
      exact absurd (hm ▸ List.mem_append_right m List.mem_cons_self) hx
  · cases m with
    | nil => exact ⟨List.append_nil b, (List.cons.inj hm).2.symm⟩
    | cons d m =>
      have hm := (List.cons.inj hm).2
      exact absurd (hm ▸ List.mem_append_right m List.mem_cons_self) hy

theorem toList_tablePath (table : String) (fnvhash : UInt64) :
    (tablePath table fnvhash).toList = "cache/".toList ++
      (table.toList ++ '_' :: (Nat.toDigits 10 fnvhash.toNat ++ ".tbl".toList)) := by
  unfold tablePath
  simp [String.toList_append]

/-- The name of a file gives the table and the hash. -/
theorem tablePath_inj {table table' : String} {fnvhash fnvhash' : UInt64} :
    tablePath table fnvhash = tablePath table' fnvhash' ↔ table = table' ∧ fnvhash = fnvhash' := by
  refine ⟨fun h => ?_, fun h => by rw [h.1, h.2]⟩
  have hdigits : ∀ k, '_' ∉ Nat.toDigits 10 k ++ ".tbl".toList := fun k hmem => by
    rcases List.mem_append.mp hmem with hmem | hmem
    · exact absurd (toNat_of_mem_toDigits hmem).2.1 (by decide)
    · exact absurd hmem (by decide)
  have h := congrArg String.toList h
  rw [toList_tablePath, toList_tablePath, List.append_cancel_left_eq] at h
  obtain ⟨htable, hsuffix⟩ := last_cancel (hdigits _) (hdigits _) h
  rw [List.append_cancel_right_eq] at hsuffix
  have hval := congrArg (Nat.ofDigitChars 10 · 0) hsuffix
  simp only [Nat.ofDigitChars_toDigits (b := 10) (by decide) (by decide)] at hval
  exact ⟨String.toList_injective htable, UInt64.toNat_inj.mp hval⟩

theorem resultPath_inj {name name' : String} :
    resultPath name = resultPath name' ↔ name = name' := by
  refine ⟨fun h => ?_, fun h => by rw [h]⟩
  have h := congrArg String.toList h
  simp only [resultPath, String.toList_append, List.append_cancel_right_eq,
    List.append_cancel_left_eq] at h
  exact String.toList_injective h

/-- The names of the files of scans have an underscore. -/
theorem resultPath_ne_tablePath {name : String} (hname : '_' ∉ name.toList) (table : String)
    (fnvhash : UInt64) : resultPath name ≠ tablePath table fnvhash := by
  intro h
  have h := congrArg String.toList h
  rw [toList_tablePath] at h
  simp only [resultPath, String.toList_append, List.append_assoc,
    List.append_cancel_left_eq] at h
  have hmem : '_' ∈ name.toList ++ ".tbl".toList := by
    rw [h]
    simp
  rcases List.mem_append.mp hmem with hmem | hmem
  · exact hname hmem
  · exact absurd hmem (by decide)

/-! ## What the files hold -/

theorem emplace_ne_none {K V : Type} [DecidableEq K] {m : K → Option V} {k k' : K} (v : V)
    (h : k' = k ∨ m k' ≠ none) : emplace m k v k' ≠ none := by
  unfold emplace
  split
  · next hsome =>
    rcases h with rfl | h
    · exact Option.isSome_iff_ne_none.mp hsome
    · exact h
  · rcases h with rfl | h
    · simp
    · by_cases hk : k' = k
      · simp [hk]
      · rwa [Function.update_of_ne hk]

/-- What holds of the elements before each step of a loop holds of all of them in the end. -/
theorem foldlM_prefix {ε σ α : Type} {f : σ → α → Except ε σ} {P : List α → σ → Prop}
    (hstep : ∀ done a s s', P done s → f s a = .ok s' → P (done ++ [a]) s') (done : List α)
    {l : List α} {s s' : σ} (hs : P done s) (h : l.foldlM f s = .ok s') : P (done ++ l) s' := by
  induction l generalizing done s with
  | nil =>
    rw [List.append_nil]
    exact Except.ok.inj h ▸ hs
  | cons a l ih =>
    rw [List.foldlM_cons] at h
    obtain ⟨s₁, hs₁, h⟩ := bind_eq_ok.mp h
    have hl := ih _ (hstep done a s s₁ hs hs₁) h
    rwa [List.append_assoc] at hl

section Valid

variable (formatDouble : UInt64 → List UInt8) (n : Nat)
  (likeMatch : List UInt8 → List UInt8 → Bool) (stod : Stod)
  (files : String → Option (List (List UInt8))) (disk : String → CSVSource)

/-- The content of a file is a table that was loaded for the scan. -/
def HoldsScan (input : TableEntity × Option Filter) (content : List UInt8) : Prop :=
  ∃ env past caches table, Caches.Valid n likeMatch stod files disk past caches ∧
    (loadInput n likeMatch stod files env input caches).1 = .ok table ∧
    content = DumpTable.dump table

/-- The content of a file is the result of the query. -/
def HoldsResult (query : NamedQuery) (content : List UInt8) : Prop :=
  ∃ fresh table, DumpTable.ofResult fresh query.duckdbResults = .ok table ∧
    content = DumpTable.dump table

/-- Every file was written for one of the scans or for one of the queries, and each of these has its
file. -/
structure CacheState.Valid (scanned : List (TableEntity × Option Filter))
    (queries : List NamedQuery) (state : CacheState) : Prop where
  caches : ∃ past, state.caches.Valid n likeMatch stod files disk past
  files : ∀ path content, state.dir path = some content →
    (∃ input ∈ scanned, filename formatDouble input = .ok path ∧
      HoldsScan n likeMatch stod files disk input content) ∨
    ∃ query ∈ queries, path = resultPath query.name ∧ HoldsResult query content
  scans : ∀ input ∈ scanned, ∃ path, filename formatDouble input = .ok path ∧
    state.dir path ≠ none
  results : ∀ query ∈ queries, state.dir (resultPath query.name) ≠ none

variable {formatDouble} {n} {likeMatch} {stod} {files} {disk}

theorem CacheState.Valid.empty :
    CacheState.Valid formatDouble n likeMatch stod files disk [] [] {} where
  caches := ⟨[], .empty disk⟩
  files := by simp
  scans := by simp
  results := by simp

variable (hdisk : ∀ table, disk (csvPath table) = ⟨columnTypes table, false, files (csvPath table)⟩)
  {scanned : List (TableEntity × Option Filter)} {queries : List NamedQuery}
  {state state' : CacheState}
  (h : state.Valid formatDouble n likeMatch stod files disk scanned queries)
include h

/-- More files, for more scans and queries. -/
theorem CacheState.Valid.extend {scanned' : List (TableEntity × Option Filter)}
    {queries' : List NamedQuery}
    (hcaches : ∃ past, state'.caches.Valid n likeMatch stod files disk past)
    (hscanned : ∀ input ∈ scanned, input ∈ scanned')
    (hqueries : ∀ query ∈ queries, query ∈ queries')
    (hdir : ∀ path, state.dir path ≠ none → state'.dir path ≠ none)
    (hfiles : ∀ path content, state'.dir path = some content → state.dir path = some content ∨
      (∃ input ∈ scanned', filename formatDouble input = .ok path ∧
        HoldsScan n likeMatch stod files disk input content) ∨
      ∃ query ∈ queries', path = resultPath query.name ∧ HoldsResult query content)
    (hscans : ∀ input ∈ scanned', input ∈ scanned ∨
      ∃ path, filename formatDouble input = .ok path ∧ state'.dir path ≠ none)
    (hresults : ∀ query ∈ queries', query ∈ queries ∨ state'.dir (resultPath query.name) ≠ none) :
    state'.Valid formatDouble n likeMatch stod files disk scanned' queries' where
  caches := hcaches
  files := fun path content hcontent => by
    rcases hfiles path content hcontent with hold | hnew
    · rcases h.files path content hold with ⟨input, hinput, hholds⟩ | ⟨query, hquery, hholds⟩
      · exact .inl ⟨input, hscanned input hinput, hholds⟩
      · exact .inr ⟨query, hqueries query hquery, hholds⟩
    · exact hnew
  scans := fun input hinput => by
    rcases hscans input hinput with hold | hnew
    · obtain ⟨path, hpath, hfile⟩ := h.scans input hold
      exact ⟨path, hpath, hdir path hfile⟩
    · exact hnew
  results := fun query hquery => by
    rcases hresults query hquery with hold | hnew
    · exact hdir _ (h.results query hold)
    · exact hnew

include hdisk in
theorem CacheState.Valid.buildInput {env : LoadEnv} {input : TableEntity × Option Filter}
    (hbuild : buildInput formatDouble n likeMatch stod files env input state = .ok state') :
    state'.Valid formatDouble n likeMatch stod files disk (scanned ++ [input]) queries := by
  obtain ⟨path, hpath, hbuild⟩ := bind_eq_ok.mp hbuild
  obtain ⟨past, hcaches⟩ := h.caches
  -- The new scan has its file afterwards, and the others keep theirs.
  have hscans : ∀ dir : String → Option (List UInt8), dir path ≠ none →
      ∀ input' ∈ scanned ++ [input], input' ∈ scanned ∨
        ∃ path, filename formatDouble input' = .ok path ∧ dir path ≠ none := by
    intro dir hfile input' hinput
    rcases List.mem_append.mp hinput with hinput | hinput
    · exact .inl hinput
    · exact .inr ⟨path, List.mem_singleton.mp hinput ▸ hpath, hfile⟩
  cases hfile : state.dir path with
  | some content =>
    rw [hfile] at hbuild
    obtain rfl := Except.ok.inj hbuild
    exact h.extend h.caches (fun _ => List.mem_append_left _) (fun _ => id) (fun _ => id)
      (fun _ _ => .inl) (hscans _ (by simp [hfile])) (fun _ => .inl)
  | none =>
    rw [hfile] at hbuild
    obtain ⟨past', hcaches'⟩ := hcaches.loadInput hdisk env input
    cases hload : loadInput n likeMatch stod files env input state.caches with
    | mk result caches =>
      rw [hload] at hcaches'
      simp only [hload] at hbuild
      cases result with
      | error e => cases hbuild
      | ok table =>
        obtain rfl := Except.ok.inj hbuild
        refine h.extend ⟨past', hcaches'⟩ (fun _ => List.mem_append_left _) (fun _ => id)
          (fun _ hold => emplace_ne_none _ (.inr hold)) (fun path' content' hdir => ?_)
          (hscans _ (emplace_ne_none _ (.inl rfl))) (fun _ => .inl)
        rcases emplace_eq_some hdir with hdir | ⟨-, rfl, rfl⟩
        · exact .inl hdir
        · exact .inr (.inl ⟨input, by simp, hpath, env, past, state.caches, table, hcaches,
            by rw [hload], rfl⟩)

theorem CacheState.Valid.buildResult {fresh : Nat → Nat → Page} {query : NamedQuery}
    (hbuild : buildResult fresh query state = .ok state') :
    state'.Valid formatDouble n likeMatch stod files disk scanned (queries ++ [query]) := by
  have hresults : ∀ dir : String → Option (List UInt8), dir (resultPath query.name) ≠ none →
      ∀ query' ∈ queries ++ [query], query' ∈ queries ∨ dir (resultPath query'.name) ≠ none := by
    intro dir hfile query' hquery
    rcases List.mem_append.mp hquery with hquery | hquery
    · exact .inl hquery
    · exact .inr (List.mem_singleton.mp hquery ▸ hfile)
  unfold HashJoin.buildResult at hbuild
  cases hfile : state.dir (resultPath query.name) with
  | some content =>
    rw [hfile] at hbuild
    obtain rfl := Except.ok.inj hbuild
    exact h.extend h.caches (fun _ => id) (fun _ => List.mem_append_left _) (fun _ => id)
      (fun _ _ => .inl) (fun _ => .inl) (hresults _ (by simp [hfile]))
  | none =>
    rw [hfile] at hbuild
    obtain ⟨table, htable, hbuild⟩ := bind_eq_ok.mp hbuild
    obtain rfl := Except.ok.inj hbuild
    refine h.extend h.caches (fun _ => id) (fun _ => List.mem_append_left _)
      (fun _ hold => emplace_ne_none _ (.inr hold)) (fun path' content' hdir => ?_) (fun _ => .inl)
      (hresults _ (emplace_ne_none _ (.inl rfl)))
    rcases emplace_eq_some hdir with hdir | ⟨-, rfl, rfl⟩
    · exact .inl hdir
    · exact .inr (.inr ⟨query, by simp, rfl, fresh, table, htable, rfl⟩)

include hdisk in
theorem CacheState.Valid.build {columnToTables : String → Option (List String)}
    {query : NamedQuery} {env : RunEnv}
    (hbuild :
      query.build formatDouble n likeMatch stod files columnToTables env state = .ok state') :
    state'.Valid formatDouble n likeMatch stod files disk
      (scanned ++ query.scans columnToTables env) (queries ++ [query]) := by
  obtain ⟨sql, hparse, hbuild⟩ := bind_eq_ok.mp hbuild
  obtain ⟨⟨⟨ret, root⟩, state₁⟩, hload, hresult⟩ := bind_eq_ok.mp hbuild
  have hinputs := (loadJoinPipeline_reload planOnly hload).1
  have hvalid := foldlM_prefix (P := fun done s => s.Valid formatDouble n likeMatch stod files disk
    (scanned ++ done.map Prod.fst) queries)
    (fun done a s s' hs hstep => by
      rw [List.map_append, ← List.append_assoc]
      exact hs.buildInput hdisk hstep) [] (by simpa using h) hinputs
  rw [List.nil_append, List.zipIdx_map_fst] at hvalid
  rw [NamedQuery.scans_eq hparse hload]
  exact hvalid.buildResult hresult

omit h in
include hdisk in
/-- A run that builds the cache leaves a file for every scan and for every result. -/
theorem CacheState.Valid.builds {columnToTables : String → Option (List String)}
    {calls : List (NamedQuery × RunEnv)}
    (hbuilds : builds formatDouble n likeMatch stod files columnToTables calls = .ok state) :
    state.Valid formatDouble n likeMatch stod files disk
      (calls.flatMap fun call => call.1.scans columnToTables call.2) (calls.map Prod.fst) := by
  have hvalid := foldlM_prefix (P := fun done s => s.Valid formatDouble n likeMatch stod files disk
    (done.flatMap fun call => call.1.scans columnToTables call.2) (done.map Prod.fst))
    (fun done a s s' hs hstep => by
      rw [List.flatMap_append, List.map_append, List.flatMap_singleton]
      exact hs.build hdisk hstep) [] .empty hbuilds
  rwa [List.nil_append] at hvalid

end Valid

/-! ## What the files are loaded to -/

theorem filename_eq_ok {formatDouble : UInt64 → List UInt8} {input : TableEntity × Option Filter}
    {path : String} : filename formatDouble input = .ok path ↔
      ∃ str, filStr formatDouble input.2 = .ok str ∧
        path = tablePath input.1.table (FNVHash.hash str) := by
  unfold filename
  rw [bind_eq_ok]
  exact exists_congr fun str => and_congr_right fun _ =>
    ⟨fun h => (Except.ok.inj h).symm, fun h => h ▸ rfl⟩

/-- Every table of the schema fits the metadata of a file. -/
theorem length_columnTypes_le (table : String) : (columnTypes table).length ≤ 16 := by
  unfold columnTypes
  cases htable : attributesMap table with
  | none => simp
  | some attributes =>
    rw [Option.getD_some, List.length_map]
    exact attributesMap_forall (P := fun attributes => attributes.length ≤ 16) (by decide) htable

theorem cachedFile_dump {maxSize : Nat} (hmaxSize : maxSize < 2 ^ 64)
    {dir : String → Option (List UInt8)} {path : String} {table : ColumnarTable}
    (hdir : dir path = some (DumpTable.dump table)) (hcols : table.columns.length ≤ 16)
    (hrows : table.numRows < 2 ^ 64) (hpages : ∀ c ∈ table.columns, c.pages.length ≤ maxSize) :
    cachedFile maxSize dir path = .ok table := by
  obtain ⟨cached, hcached, hview⟩ := DumpTable.load_dump hmaxSize hcols hrows hpages
  unfold cachedFile
  simp only [hdir, hcached, Except.mapError, ok_bind, hview]

theorem loadAll_cachedLoader {formatDouble : UInt64 → List UInt8} {maxSize : Nat}
    {dir : String → Option (List UInt8)} {inputs : List (TableEntity × Option Filter)}
    {tables : List ColumnarTable}
    (h : List.Forall₂ (fun input table =>
      cachedInput formatDouble maxSize dir input = .ok table) inputs tables)
    (start : Nat) (loaded : List ColumnarTable) :
    (cachedLoader formatDouble maxSize dir).loadAll start inputs loaded =
      .ok (loaded ++ tables) := by
  induction h generalizing start loaded with
  | nil =>
    rw [List.append_nil]
    rfl
  | @cons input table inputs tables htable _ ih =>
    have hone : cachedLoader formatDouble maxSize dir start input loaded =
        .ok (loaded ++ [table]) := by
      unfold cachedLoader
      rw [htable, ok_bind]
    rw [Loader.loadAll_cons, hone, ok_bind, ih, List.append_assoc]
    rfl

/-- No column of the table has more pages than a vector holds. -/
def Table.PagesFit (t : Table) (maxSize : Nat) : Prop :=
  ∀ (fresh : Nat → Page) (a : Nat) (type : DataType), t.types[a]? = some type →
    (writeCells fresh type (t.column a)).length ≤ maxSize

/-- A table without long strings fits, if it has no more rows than a vector holds. -/
theorem Table.pagesFit {t : Table} {maxSize : Nat} (hrows : t.data.length ≤ maxSize)
    (htypes : ∀ type ∈ t.types, type = .int32 ∨ type = .varchar)
    (hshort : ∀ record ∈ t.data, ∀ v ∈ record, ∀ s, v.getVarchar = some s → s.length ≤ 8192 - 7) :
    t.PagesFit maxSize := by
  intro fresh a type htype
  have hlen : (t.column a).length ≤ maxSize := by rwa [Table.column, List.length_map]
  refine le_trans ?_ hlen
  rcases htypes type (List.mem_of_getElem? htype) with rfl | rfl
  · have hpages := (ColumnInserter.write_ok fresh rfl
      ((t.column a).map Data.getInt32)).length_pages_le (by decide)
    rwa [List.length_map] at hpages
  · obtain ⟨segs, hsegs, hpages, hne⟩ :=
      StringInserter.write_ok fresh ((t.column a).map Data.getVarchar)
    have hle := hpages.length_pages_le hne fun s hs => by
      rw [← hsegs, Table.column, List.map_map] at hs
      obtain ⟨record, hrecord, hs⟩ := List.mem_map.mp hs
      rw [Function.comp_apply, List.getD_eq_getElem?_getD] at hs
      cases hv : record[a]? with
      | none =>
        rw [hv] at hs
        cases hs
      | some v =>
        rw [hv] at hs
        exact hshort record hrecord v (List.mem_of_getElem? hv) s hs
    rwa [← hsegs, List.length_map] at hle

/-- The tables of a plan and the result of its query fit their files. -/
structure NamedQuery.FilesFit (query : NamedQuery) (tables : List Table) (maxSize : Nat) :
    Prop where
  size : maxSize < 2 ^ 64
  rows : ∀ t ∈ tables, t.data.length < 2 ^ 64
  pages : ∀ t ∈ tables, t.PagesFit maxSize
  resultColumns : query.duckdbResults.types.length ≤ 16
  resultRows : query.duckdbResults.rows.length < 2 ^ 64
  resultPages : ∀ fresh table, DumpTable.ofResult fresh query.duckdbResults = .ok table →
    ∀ c ∈ table.columns, c.pages.length ≤ maxSize

/-- The hash of a filter of the inputs is that of no other filter of its table among the scans. -/
def HashesTell (formatDouble : UInt64 → List UInt8)
    (scans inputs : List (TableEntity × Option Filter)) : Prop :=
  ∀ other ∈ scans, ∀ input ∈ inputs, other.1.table = input.1.table →
    (filStr formatDouble other.2).map FNVHash.hash =
      (filStr formatDouble input.2).map FNVHash.hash → other.2 = input.2

section Loaded

variable {formatDouble : UInt64 → List UInt8} {n : Nat}
  {likeMatch : List UInt8 → List UInt8 → Bool} {stod : Stod}
  {files : String → Option (List (List UInt8))} {disk : String → CSVSource}
  {scanned : List (TableEntity × Option Filter)} {queries : List NamedQuery} {state : CacheState}
  (h : state.Valid formatDouble n likeMatch stod files disk scanned queries)
  {query : NamedQuery} {tables : List Table} {maxSize : Nat} (hfit : query.FilesFit tables maxSize)
include h hfit

/-- The file of a scan is loaded with the rows that its filter keeps. -/
theorem CacheState.Valid.cachedInput_ok (hn : 0 < n)
    (hdisk : ∀ table, disk (csvPath table) = ⟨columnTypes table, false, files (csvPath table)⟩)
    {inputs : List (TableEntity × Option Filter)} (hhash : HashesTell formatDouble scanned inputs)
    {input : TableEntity × Option Filter} (hscanned : input ∈ scanned) (hinput : input ∈ inputs)
    (hqueries : ∀ query ∈ queries, '_' ∉ query.name.toList)
    {rows : List (List Data)} (hscan : ScanReadable stod files rows input)
    (htable : ⟨rows.filter (Filter.passes likeMatch input.2), columnTypes input.1.table⟩ ∈ tables) :
    ∃ table, cachedInput formatDouble maxSize state.dir input = .ok table ∧
      TableWritten ⟨rows.filter (Filter.passes likeMatch input.2), columnTypes input.1.table⟩
        table := by
  obtain ⟨path, hpath, hne'⟩ := h.scans input hscanned
  obtain ⟨content, hcontent⟩ := Option.ne_none_iff_exists'.mp hne'
  obtain ⟨str, hstr, hpathEq⟩ := filename_eq_ok.mp hpath
  rcases h.files path content hcontent with ⟨other, hother, hotherPath, hholds⟩ |
    ⟨query, hquery, hresult, -⟩
  · obtain ⟨str', hstr', hpathEq'⟩ := filename_eq_ok.mp hotherPath
    obtain ⟨hname, hhashEq⟩ := tablePath_inj.mp (hpathEq'.symm.trans hpathEq)
    have hsame := hhash other hother input hinput hname (by
      rw [hstr, hstr']
      exact congrArg Except.ok hhashEq)
    obtain ⟨env, past, caches, table, hcaches, hload, rfl⟩ := hholds
    -- An entity is loaded by its table alone.
    have hload : (loadInput n likeMatch stod files env input caches).1 = .ok table := by
      rw [← hload]
      unfold loadInput loadCall
      rw [hname, hsame]
    obtain ⟨table', hload', hwritten, fresh, hcolumns⟩ :=
      hcaches.loadInput_ok hn hdisk env hscan
    obtain rfl := Except.ok.inj (hload'.symm.trans hload)
    refine ⟨table', ?_, hwritten⟩
    unfold cachedInput
    rw [hpath, ok_bind]
    refine cachedFile_dump hfit.size hcontent ?_ ?_ fun c hc => ?_
    · rw [hcolumns]
      simpa [perColumn] using length_columnTypes_le _
    · rw [hwritten.numRows]
      exact hfit.rows _ htable
    · rw [hcolumns] at hc
      obtain ⟨a, ha⟩ := List.mem_iff_getElem?.mp hc
      rw [getElem?_perColumn, Option.map_eq_some_iff] at ha
      obtain ⟨type, htype, rfl⟩ := ha
      simp only [pagesOf, htype]
      exact hfit.pages _ htable _ a type htype
  · exact absurd (hresult.symm.trans hpathEq)
      (resultPath_ne_tablePath (hqueries query hquery) _ _)

/-- The file of a query is loaded with the sorted rows of its result. -/
theorem CacheState.Valid.expected_ok (hquery : query ∈ queries) (hname : '_' ∉ query.name.toList)
    (hsame : ∀ other ∈ queries, other.name = query.name →
      other.duckdbResults = query.duckdbResults) :
    ∃ types expected, query.duckdbResults.types.mapM LogicalType.columnType = .ok types ∧
      cachedFile maxSize state.dir (resultPath query.name) = .ok expected ∧
      fromColumnar expected = .ok ⟨sort query.duckdbResults.rows, types⟩ := by
  obtain ⟨content, hcontent⟩ := Option.ne_none_iff_exists'.mp (h.results query hquery)
  rcases h.files _ content hcontent with ⟨input, -, hpath, -⟩ |
    ⟨other, hother, hpath, fresh, table, htable, rfl⟩
  · obtain ⟨str, -, hpath⟩ := filename_eq_ok.mp hpath
    exact absurd hpath (resultPath_ne_tablePath hname _ _)
  · rw [hsame other hother (resultPath_inj.mp hpath).symm] at htable
    obtain ⟨types, htypes, hlen, hnum, hread⟩ := DumpTable.read_ofResult htable
    exact ⟨types, table, htypes, cachedFile_dump hfit.size hcontent (hlen ▸ hfit.resultColumns)
      (hnum ▸ hfit.resultRows) (hfit.resultPages fresh table htable), hread⟩

end Loaded

/-! ## Building the cache of answerable queries -/

theorem filename_ok {formatDouble : UInt64 → List UInt8} {input : TableEntity × Option Filter}
    (hfilter : ∀ f, input.2 = some f → ∃ stmt, f = .statement stmt) :
    ∃ path, filename formatDouble input = .ok path := by
  obtain ⟨entity, filter⟩ := input
  cases filter with
  | none => exact ⟨_, rfl⟩
  | some f =>
    obtain ⟨stmt, rfl⟩ := hfilter f rfl
    exact ⟨_, rfl⟩

section Build

variable {formatDouble : UInt64 → List UInt8} {n : Nat} (hn : 0 < n)
  {likeMatch : List UInt8 → List UInt8 → Bool} {stod : Stod}
  {files : String → Option (List (List UInt8))} {disk : String → CSVSource}
  (hdisk : ∀ table, disk (csvPath table) = ⟨columnTypes table, false, files (csvPath table)⟩)
  {base : String → List (List Data)}
include hn hdisk

theorem CacheState.Valid.buildInputs_ok {queries : List NamedQuery} (env : Nat → LoadEnv)
    (inputs : List (TableEntity × Option Filter))
    (hinputs : ∀ input ∈ inputs, ScanReadable stod files (base input.1.table) input)
    {scanned : List (TableEntity × Option Filter)} {state : CacheState}
    (h : state.Valid formatDouble n likeMatch stod files disk scanned queries) (start : Nat) :
    ∃ state', (buildLoader formatDouble n likeMatch stod files env).loadAll start inputs state =
      .ok state' := by
  induction inputs generalizing scanned state start with
  | nil => exact ⟨state, rfl⟩
  | cons input inputs ih =>
    rw [List.forall_mem_cons] at hinputs
    obtain ⟨hscan, hinputs⟩ := hinputs
    have hone : ∃ state₁, HashJoin.buildInput formatDouble n likeMatch stod files (env start)
        input state = .ok state₁ := by
      obtain ⟨path, hpath⟩ : ∃ path, filename formatDouble input = .ok path :=
        filename_ok fun f hf => (hscan.filter f hf).imp fun _ => And.left
      unfold HashJoin.buildInput
      rw [hpath, ok_bind]
      cases state.dir path with
      | some content => exact ⟨state, rfl⟩
      | none =>
        obtain ⟨past, hcaches⟩ := h.caches
        obtain ⟨table, hload, -⟩ := hcaches.loadInput_ok hn hdisk (env start) hscan
        cases hresult : loadInput n likeMatch stod files (env start) input state.caches with
        | mk result caches =>
          rw [hresult] at hload
          obtain rfl : result = .ok table := hload
          exact ⟨_, rfl⟩
    obtain ⟨state₁, hone⟩ := hone
    obtain ⟨state', hrest⟩ := ih hinputs (h.buildInput hdisk hone) (start + 1)
    refine ⟨state', ?_⟩
    rw [Loader.loadAll_cons, buildLoader, hone, ok_bind]
    exact hrest

theorem CacheState.Valid.build_ok {columnToTables : String → Option (List String)}
    {scanned : List (TableEntity × Option Filter)} {queries : List NamedQuery} {state : CacheState}
    (h : state.Valid formatDouble n likeMatch stod files disk scanned queries)
    {query : NamedQuery} {env : RunEnv} {sql : ParsedSQL} {ret : Pipeline} {root : Nat}
    (hparse : parseSQL columnToTables env.parse query.call.query = .ok sql)
    (hplan : loadJoinPipeline planOnly sql env.order query.call.plan () = .ok ((ret, root), ()))
    (honce : (query.call.plan.entities sql.scope).Perm sql.scope.entities)
    (hans : sql.Answerable query.call.query)
    (hfiles : ∀ entity ∈ sql.scope.entities, TableFile stod files entity.table (base entity.table))
    {types : List DataType}
    (htypes : query.duckdbResults.types.mapM LogicalType.columnType = .ok types) : ∃ state',
      query.build formatDouble n likeMatch stod files columnToTables env state = .ok state' := by
  have hquery := loadJoinPipeline_queryPlan hparse hplan honce
  obtain ⟨state₁, hinputs⟩ := h.buildInputs_ok hn hdisk env.load ret.inputs
    (fun _ hinput => hquery.scanReadable hans hfiles hinput) 0
  have hload := (loadJoinPipeline_reload
    (buildLoader formatDouble n likeMatch stod files env.load) hplan).2 _ _ hinputs
  unfold NamedQuery.build
  rw [hparse, ok_bind, hload, ok_bind]
  simp only
  unfold HashJoin.buildResult
  cases state₁.dir (resultPath query.name) with
  | some content => exact ⟨_, rfl⟩
  | none =>
    obtain ⟨columns, htable, -⟩ :=
      toColumnar_ok (env.fresh 0) (query.duckdbResults.table_wellTyped htypes)
    simp only [DumpTable.ofResult, htypes, ok_bind, htable]
    exact ⟨_, rfl⟩

end Build

/-- After a run that builds the cache, whatever queries it has and in whatever order, a query whose
hashes tell its filters from the others of their tables is run on the rows of its tables: if the
strings of its scans are found, it is found correct exactly when the result of DuckDB has columns of
the types of the selected ones and the rows of the answer. -/
theorem NamedQuery.run_cached_correct_iff {formatDouble : UInt64 → List UInt8} {n : Nat}
    (hn : 0 < n) {numThreads : Nat} (hT : 0 < numThreads)
    {likeMatch : List UInt8 → List UInt8 → Bool} {stod : Stod}
    {files : String → Option (List (List UInt8))}
    {columnToTables : String → Option (List String)} {calls : List (NamedQuery × RunEnv)}
    {state : CacheState}
    (hbuilds : builds formatDouble n likeMatch stod files columnToTables calls = .ok state)
    (hnames : ∀ call ∈ calls, '_' ∉ call.1.name.toList) {query : NamedQuery} {env env' : RunEnv}
    (hquery : (query, env') ∈ calls) (hparseEnv : env'.parse = env.parse)
    (hsame : ∀ call ∈ calls, call.1.name = query.name →
      call.1.duckdbResults = query.duckdbResults)
    {sql : ParsedSQL} {ret : Pipeline} {root : Nat}
    (hparse : parseSQL columnToTables env.parse query.call.query = .ok sql)
    (hplan : loadJoinPipeline planOnly sql env.order query.call.plan () = .ok ((ret, root), ()))
    (honce : (query.call.plan.entities sql.scope).Perm sql.scope.entities)
    (hans : sql.Answerable query.call.query) {base : String → List (List Data)}
    (hfiles : ∀ entity ∈ sql.scope.entities, TableFile stod files entity.table (base entity.table))
    (hsize : ret.BuildSidesFit (ret.keptTables likeMatch base))
    (hhash : HashesTell formatDouble
      (calls.flatMap fun call => call.1.scans columnToTables call.2) ret.inputs)
    {maxSize : Nat} (hfit : query.FilesFit (ret.keptTables likeMatch base) maxSize) :
    ∃ inputs, loadJoinPipeline (cachedLoader formatDouble maxSize state.dir) sql env.order
        query.call.plan [] = .ok ((ret, root), inputs) ∧
      (Plan.StringsFound ⟨ret.nodes, inputs, root⟩ (ret.keptTables likeMatch base) →
        ∀ sched global, ∃ correct,
          query.run formatDouble n columnToTables maxSize state.dir numThreads sched env global =
            .ok correct ∧
          (correct = true ↔ query.duckdbResults.Answers query.call.query sql columnToTables
            likeMatch base)) := by
  obtain ⟨disk, hdisk⟩ := exists_disk files
  have hvalid := CacheState.Valid.builds hdisk hbuilds
  have hqueryPlan := loadJoinPipeline_queryPlan hparse hplan honce
  have hscans : query.scans columnToTables env' = ret.inputs :=
    NamedQuery.scans_eq (by rwa [hparseEnv]) hplan
  have hqueries : ∀ other ∈ calls.map Prod.fst, '_' ∉ other.name.toList := by
    intro other hother
    obtain ⟨call, hcall, rfl⟩ := List.mem_map.mp hother
    exact hnames call hcall
  obtain ⟨types, expected, htypes, hexpected, hread⟩ := hvalid.expected_ok hfit
    (List.mem_map_of_mem hquery) (hnames _ hquery) fun other hother hname => by
      obtain ⟨call, hcall, rfl⟩ := List.mem_map.mp hother
      exact hsame call hcall hname
  have hinput : ∀ input ∈ ret.inputs, ∃ table,
      cachedInput formatDouble maxSize state.dir input = .ok table ∧
        TableWritten ⟨(base input.1.table).filter (Filter.passes likeMatch input.2),
          columnTypes input.1.table⟩ table := by
    intro input hinput
    refine hvalid.cachedInput_ok hfit hn hdisk hhash (List.mem_flatMap.mpr ⟨_, hquery, ?_⟩) hinput
      hqueries (hqueryPlan.scanReadable hans hfiles hinput) (List.mem_map_of_mem hinput)
    rwa [hscans]
  obtain ⟨inputs, hinputs, hall⟩ := mapM_ok hinput
  have hload := (loadJoinPipeline_reload (cachedLoader formatDouble maxSize state.dir) hplan).2
    _ _ (loadAll_cachedLoader (mapM_eq_ok_iff.mp hinputs) 0 [])
  rw [List.nil_append] at hload
  refine ⟨inputs, hload, fun hstrings sched global => ?_⟩
  obtain ⟨results, global', result, hexecute, hanswered⟩ := hqueryPlan.execute_answered hans
    (List.forall₂_map_left_iff.mpr hall) (fun entity hentity => (hfiles entity hentity).wellTyped)
    hsize hstrings hT env.node env.fresh global
  obtain ⟨correct, hcorrect, hiff⟩ := verdict_iff htypes hanswered.decode
  rw [columnTypes_iff hanswered.result_types, ← hanswered.answers_iff] at hiff
  refine ⟨correct, ?_, hiff⟩
  unfold NamedQuery.run
  rw [hparse, ok_bind, hload, ok_bind]
  simp only [hexecute, ok_bind, hexpected]
  exact (compareWithCache_verdict hn sched htypes hread results).trans hcorrect

/-- The query for the linked keyword, for which DuckDB returns the id 1. -/
def namedKeyword : NamedQuery where
  name := "1a"
  call := ⟨linkedKeyword, linkKeywordPlan⟩
  duckdbResults := keywordOne

theorem namedKeyword_fits {tables : List Table}
    (htables : tables = [⟨[[.int32 1, .varchar [120]]], [.int32, .varchar]⟩,
      ⟨linkRows "keyword", [.int32, .varchar, .varchar]⟩]) :
    namedKeyword.FilesFit tables 1000 where
  size := by decide
  rows := by
    subst htables
    decide
  pages := by
    subst htables
    intro t ht
    rcases List.mem_pair.mp ht with rfl | rfl
    · exact Table.pagesFit (by decide) (by decide) (by decide)
    · exact Table.pagesFit (by decide) (by decide) (by decide)
  resultColumns := by decide
  resultRows := by decide
  resultPages := by
    intro fresh table htable
    obtain ⟨page, hpage⟩ : ∃ page, toColumnar fresh ⟨[[.int32 1]], [.int32]⟩ =
      .ok ⟨1, [⟨.int32, [page]⟩]⟩ := ⟨_, rfl⟩
    have hsort : sort [[.int32 1]] = [[.int32 1]] := List.mergeSort_singleton _
    have hone : DumpTable.ofResult fresh namedKeyword.duckdbResults =
        .ok ⟨1, [⟨.int32, [page]⟩]⟩ := by
      rw [← hpage, ← hsort]
      rfl
    obtain rfl := Except.ok.inj (hone.symm.trans htable)
    simp

/-- The cache is built for the query, which is then run on the files. -/
theorem NamedQuery.run_cached_correct_iff_linkedKeyword :
    let env := linkEnv ⟨⟨4096, by decide, fun _ => ⟨0, 0⟩, [], []⟩, [2, 0, 1]⟩
    ∃ state, builds (fun _ => []) 2 (fun _ _ => false) (fun _ => none) linkFiles (fun _ => none)
        [(namedKeyword, env)] = .ok state ∧
      namedKeyword.run (fun _ => []) 2 (fun _ => none) 1000 state.dir 3 [] env
        {} = .ok true := by
  intro env
  obtain ⟨sql, ret, root, hlinked⟩ := exists_linkedKeywordPlan
  have hn : 0 < 2 := by decide
  have hans := linkedKeyword_answerable hlinked.parse
  have hfiles := linkedKeyword_files hlinked.entities
  have htypes : namedKeyword.duckdbResults.types.mapM LogicalType.columnType = .ok [.int32] := rfl
  obtain ⟨disk, hdisk⟩ := exists_disk linkFiles
  obtain ⟨state, hbuild⟩ : ∃ state, namedKeyword.build (fun _ => []) 2 (fun _ _ => false)
      (fun _ => none) linkFiles (fun _ => none) env {} = .ok state :=
    CacheState.Valid.empty.build_ok hn hdisk hlinked.parse hlinked.plan hlinked.once hans hfiles
      htypes
  have hbuilds : builds (fun _ => []) 2 (fun _ _ => false) (fun _ => none) linkFiles
      (fun _ => none) [(namedKeyword, env)] = .ok state := by
    unfold builds
    rw [List.foldlM_cons, hbuild]
    rfl
  have hscans : namedKeyword.scans (fun _ => none) env = ret.inputs :=
    NamedQuery.scans_eq hlinked.parse hlinked.plan
  have hsame : ∀ call ∈ [(namedKeyword, env)], call.1.name = namedKeyword.name →
      call.1.duckdbResults = namedKeyword.duckdbResults := by
    intro call hcall _
    rw [List.mem_singleton.mp hcall]
  obtain ⟨inputs, -, hrun⟩ := NamedQuery.run_cached_correct_iff hn (show 0 < 3 by decide) hbuilds
    (by decide) (List.mem_singleton_self (namedKeyword, env))
    (show env.parse = env.parse from rfl) hsame hlinked.parse hlinked.plan hlinked.once hans hfiles
    hlinked.sidesFit
    (fun other hother input hinput htable _ => by
      rw [List.flatMap_singleton, hscans] at hother
      rw [List.inj_on_of_nodup_map hlinked.tables hother hinput htable])
    (namedKeyword_fits hlinked.kept)
  obtain ⟨correct, hcorrect, hiff⟩ := hrun (linkNodes_strings hlinked.nodes inputs root _) [] {}
  obtain rfl := hiff.mpr hlinked.keywordOne_answers
  exact ⟨state, hbuilds, hcorrect⟩

end HashJoin
