import HashJoin.Plan

/-!
# The table cache

A table is dumped as a page of metadata, padded with zeros, and the pages of its columns, one
column after another. `from_cache` maps such a file and sets pointers into it. It trusts the counts
that it finds there: nothing is compared with the size of the file.
-/

namespace HashJoin

open Bytes

/-! ## The file -/

/-- The number of an enumerator. -/
def DataType.code : DataType → UInt32
  | .int32 => 0
  | .int64 => 1
  | .fp64 => 2
  | .varchar => 3

/-- The enumerator with a number. -/
def DataType.ofCode (code : UInt32) : Option DataType :=
  if code = 0 then some .int32
  else if code = 1 then some .int64
  else if code = 2 then some .fp64
  else if code = 3 then some .varchar
  else none

theorem DataType.ofCode_code (t : DataType) : ofCode t.code = some t := by
  cases t <;> rfl

structure TableMeta where
  numRows : UInt64
  numCols : UInt64
  types : Fin 16 → UInt32
  numPages : Fin 16 → UInt64

/-- The 208 bytes of the structure. -/
def TableMeta.toBytes (m : TableMeta) : List UInt8 :=
  Pod.toBytes m.numRows ++ Pod.toBytes m.numCols ++ (List.ofFn m.types).flatMap Pod.toBytes ++
    (List.ofFn m.numPages).flatMap Pod.toBytes

namespace DumpTable

/-- `tablemeta` of a table with at most 16 columns. -/
def tablemeta (t : ColumnarTable) : TableMeta where
  numRows := UInt64.ofNat t.numRows
  numCols := UInt64.ofNat t.columns.length
  types i := match t.columns[i.val]? with
    | some c => c.type.code
    | none => 0
  numPages i := match t.columns[i.val]? with
    | some c => UInt64.ofNat c.pages.length
    | none => 0

def fillerSize : Nat := 8192 - 208

def dump (t : ColumnarTable) : List UInt8 :=
  (tablemeta t).toBytes ++ List.replicate fillerSize 0 ++
    t.columns.flatMap fun c => c.pages.flatMap Pod.toBytes

end DumpTable

/-! ## Loading -/

/-- Why `from_cache` does not return. -/
inductive CacheFault where
  | runtimeError
  /-- A vector is at its largest. -/
  | lengthError
  /-- A read outside the file, which is undefined behaviour and no exception. -/
  | outOfFile
  deriving DecidableEq

/-- `Column`, with its pages as places in the mapped file. -/
structure CachedColumn where
  type : UInt32
  pages : List Nat

structure CachedTable where
  numRows : UInt64
  columns : List CachedColumn

/-- A read of the metadata. -/
def readMeta (T : Type) [Pod T] (content : List UInt8) (off : Nat) : Except CacheFault T :=
  if off + Pod.size T ≤ content.length then .ok (readAt T content off) else .error .outOfFile

/-- `pages.push_back(data)` and `data += PAGE_SIZE`. A vector holds `maxSize` pages at most. -/
def pushPage (maxSize : Nat) (st : List Nat × Nat) : Except CacheFault (List Nat × Nat) :=
  if st.1.length < maxSize then .ok (st.1 ++ [st.2], st.2 + 8192) else .error .lengthError

/-- One turn of the loop over the columns, on the columns so far and `data`. -/
def loadColumn (maxSize : Nat) (content : List UInt8) (st : List CachedColumn × Nat) (i : Nat) :
    Except CacheFault (List CachedColumn × Nat) := do
  let type ← readMeta UInt32 content (16 + 4 * i)
  let numPages ← readMeta UInt64 content (80 + 8 * i)
  let pages ← (List.range numPages.toNat).foldlM (fun st _ => pushPage maxSize st) ([], st.2)
  .ok (st.1 ++ [⟨type, pages.1⟩], pages.2)

/-- `Table::from_cache` on a file that can be opened and mapped. -/
def fromCache (maxSize : Nat) (content : List UInt8) : Except CacheFault CachedTable :=
  if content.length = 0 then .error .runtimeError
  else do
    let numCols ← readMeta UInt64 content 8
    let columns ← (List.range numCols.toNat).foldlM (loadColumn maxSize content) ([], 8192)
    let numRows ← readMeta UInt64 content 0
    .ok ⟨numRows, columns.1⟩

/-- The column that is seen through the pointers, if its type is a type. -/
def CachedColumn.view (content : List UInt8) (c : CachedColumn) : Option Column := do
  let type ← DataType.ofCode c.type
  some { type := type, pages := c.pages.map (readAt Page content) }

def CachedTable.view (content : List UInt8) (t : CachedTable) : Option ColumnarTable := do
  let columns ← t.columns.mapM (CachedColumn.view content)
  some { numRows := t.numRows.toNat, columns := columns }

/-! ## The loops -/

namespace TableCache

variable (maxSize : Nat) (content : List UInt8)

/-- `meta->num_cols`, `meta->types[i]` and `meta->num_pages[i]` in a file. -/
def numCols : Nat := (readAt UInt64 content 8).toNat
def typeAt (i : Nat) : UInt32 := readAt UInt32 content (16 + 4 * i)
def numPages (i : Nat) : Nat := (readAt UInt64 content (80 + 8 * i)).toNat

/-- The pages before those of column `k`, with the page of the metadata. -/
def pagesBefore (k : Nat) : Nat := 1 + ((List.range k).map (numPages content)).sum

/-- Column `i` with its pages one after another. -/
def column (i : Nat) : CachedColumn where
  type := typeAt content i
  pages := (List.range (numPages content i)).map fun j => 8192 * (pagesBefore content i + j)

theorem pagesBefore_succ (k : Nat) :
    pagesBefore content (k + 1) = pagesBefore content k + numPages content k := by
  simp [pagesBefore, List.range_succ, Nat.add_assoc]

theorem pagesBefore_mono : Monotone (pagesBefore content) :=
  monotone_nat_of_le_succ fun k => by
    rw [pagesBefore_succ]
    exact Nat.le_add_right _ _

theorem foldlM_pushPage (k data : Nat) :
    (List.range k).foldlM (fun st _ => pushPage maxSize st) (([] : List Nat), data) =
      if k ≤ maxSize then
        .ok ((List.range k).map (fun j => data + 8192 * j), data + 8192 * k)
      else .error .lengthError := by
  induction k with
  | zero => rw [if_pos (Nat.zero_le _)]; rfl
  | succ k ih =>
    rw [List.range_succ, List.foldlM_append, ih]
    by_cases hk : k + 1 ≤ maxSize
    · rw [if_pos (by omega), if_pos hk, ok_bind]
      simp [pushPage, Nat.lt_of_succ_le hk, Nat.mul_add, Nat.add_assoc]
    · rw [if_neg hk]
      split
      · simp [pushPage]
        omega
      · rfl

variable {maxSize content}

theorem loadColumn_outOfFile {i : Nat} (hi : content.length < 88 + 8 * i)
    (st : List CachedColumn × Nat) : loadColumn maxSize content st i = .error .outOfFile := by
  have hpages : readMeta UInt64 content (80 + 8 * i) = .error .outOfFile :=
    if_neg (by simp [Pod.size]; omega)
  unfold loadColumn
  rw [hpages]
  unfold readMeta
  split <;> rfl

theorem loadColumn_eq {i : Nat} (hi : 88 + 8 * i ≤ content.length) (columns : List CachedColumn) :
    loadColumn maxSize content (columns, 8192 * pagesBefore content i) i =
      if numPages content i ≤ maxSize then
        .ok (columns ++ [column content i], 8192 * pagesBefore content (i + 1))
      else .error .lengthError := by
  have htype : readMeta UInt32 content (16 + 4 * i) = .ok (typeAt content i) :=
    if_pos (by simp [Pod.size]; omega)
  have hpages : readMeta UInt64 content (80 + 8 * i) = .ok (readAt UInt64 content (80 + 8 * i)) :=
    if_pos (by simp [Pod.size]; omega)
  have hcount : (readAt UInt64 content (80 + 8 * i)).toNat = numPages content i := rfl
  unfold loadColumn
  rw [htype, hpages, ok_bind, ok_bind, foldlM_pushPage, hcount]
  by_cases h : numPages content i ≤ maxSize
  · rw [if_pos h, if_pos h, pagesBefore_succ]
    simp [column, numPages, Nat.mul_add]
  · rw [if_neg h, if_neg h]
    rfl

/-- Every column of the first `k` is described in the file and has no more pages than a vector
holds. -/
theorem foldlM_loadColumn {k : Nat} (hmeta : k = 0 ∨ 80 + 8 * k ≤ content.length)
    (hmax : ∀ i < k, numPages content i ≤ maxSize) :
    (List.range k).foldlM (loadColumn maxSize content) (([] : List CachedColumn), 8192) =
      .ok ((List.range k).map (column content), 8192 * pagesBefore content k) := by
  induction k with
  | zero => rfl
  | succ k ih =>
    rw [List.range_succ, List.foldlM_append, ih (by omega) fun i hi => hmax i (by omega), ok_bind,
      List.foldlM_cons, loadColumn_eq (by omega), if_pos (hmax k (by omega)), List.map_append]
    rfl

/-- A column with too many pages stops the loop with an exception, if it is described in the
file. -/
theorem foldlM_loadColumn_lengthError {k i : Nat} (hi : i < k) (hmeta : 88 + 8 * i ≤ content.length)
    (hmax : maxSize < numPages content i) :
    (List.range k).foldlM (loadColumn maxSize content) (([] : List CachedColumn), 8192) =
      .error .lengthError := by
  induction k generalizing i with
  | zero => omega
  | succ k ih =>
    rw [List.range_succ, List.foldlM_append]
    by_cases hik : i < k
    · rw [ih hik hmeta hmax]
      rfl
    obtain rfl : i = k := by omega
    by_cases hbefore : ∀ j < i, numPages content j ≤ maxSize
    · rw [foldlM_loadColumn (by omega) hbefore, ok_bind, List.foldlM_cons, loadColumn_eq hmeta,
        if_neg (by omega)]
      rfl
    · simp only [not_forall, not_le] at hbefore
      obtain ⟨j, hj, hmaxj⟩ := hbefore
      rw [ih hj (by omega) hmaxj]
      rfl

/-- Without such a column the loop reads outside the file if a column is not described in it. -/
theorem foldlM_loadColumn_outOfFile {k : Nat} (hmeta : ¬ (k = 0 ∨ 80 + 8 * k ≤ content.length))
    (hmax : ∀ i < k, 88 + 8 * i ≤ content.length → numPages content i ≤ maxSize) :
    (List.range k).foldlM (loadColumn maxSize content) (([] : List CachedColumn), 8192) =
      .error .outOfFile := by
  induction k with
  | zero => omega
  | succ k ih =>
    rw [List.range_succ, List.foldlM_append]
    by_cases hk : k = 0 ∨ 80 + 8 * k ≤ content.length
    · rw [foldlM_loadColumn hk fun i hi => hmax i (by omega) (by omega), ok_bind, List.foldlM_cons,
        loadColumn_outOfFile (by omega)]
      rfl
    · rw [ih hk fun i hi => hmax i (by omega)]
      rfl

theorem fromCache_of_16_le (h16 : 16 ≤ content.length) :
    fromCache maxSize content =
      ((List.range (numCols content)).foldlM (loadColumn maxSize content) ([], 8192) >>=
        fun columns => .ok ⟨readAt UInt64 content 0, columns.1⟩) := by
  have hcols : readMeta UInt64 content 8 = .ok (readAt UInt64 content 8) :=
    if_pos (by simpa [Pod.size] using h16)
  have hrows : readMeta UInt64 content 0 = .ok (readAt UInt64 content 0) :=
    if_pos (by simp [Pod.size]; omega)
  unfold fromCache
  rw [if_neg (by omega), hcols, ok_bind, hrows]
  rfl

/-- A file that describes all its columns is loaded, however long it is. -/
theorem fromCache_eq (h16 : 16 ≤ content.length)
    (hmeta : numCols content = 0 ∨ 80 + 8 * numCols content ≤ content.length)
    (hmax : ∀ i < numCols content, numPages content i ≤ maxSize) :
    fromCache maxSize content =
      .ok ⟨readAt UInt64 content 0, (List.range (numCols content)).map (column content)⟩ := by
  rw [fromCache_of_16_le h16, foldlM_loadColumn hmeta hmax, ok_bind]

end TableCache

/-! ## What a dump holds -/

namespace DumpTable

open TableCache

variable {t : ColumnarTable}

/-- The pages in the order of the file. -/
def pages (t : ColumnarTable) : List Page := t.columns.flatMap Column.pages

theorem dump_eq (t : ColumnarTable) :
    dump t = [(tablemeta t).numRows, (tablemeta t).numCols].flatMap Pod.toBytes ++
      ((List.ofFn (tablemeta t).types).flatMap Pod.toBytes ++
        ((List.ofFn (tablemeta t).numPages).flatMap Pod.toBytes ++
          (List.replicate fillerSize 0 ++ (pages t).flatMap Pod.toBytes))) := by
  simp only [dump, TableMeta.toBytes, pages, List.flatMap_assoc, List.append_assoc,
    List.flatMap_cons, List.flatMap_nil, List.append_nil]

/-- The bytes before the pages are one page. -/
theorem dump_eq_pages (t : ColumnarTable) :
    ∃ header : List UInt8, header.length = 8192 ∧
      dump t = header ++ (pages t).flatMap Pod.toBytes := by
  refine ⟨(tablemeta t).toBytes ++ List.replicate fillerSize 0, ?_, ?_⟩
  · simp only [TableMeta.toBytes, List.length_append, Pod.length_toBytes, length_flatMap_toBytes,
      List.length_ofFn, List.length_replicate]
    rfl
  · unfold dump
    rw [pages, List.flatMap_assoc]

theorem length_dump (t : ColumnarTable) : (dump t).length = 8192 * (1 + (pages t).length) := by
  obtain ⟨header, hheader, hdump⟩ := dump_eq_pages t
  rw [hdump, List.length_append, hheader, length_flatMap_toBytes, Nat.mul_add]
  rfl

theorem readAt_page {k : Nat} (hk : k < (pages t).length) :
    readAt Page (dump t) (8192 * (1 + k)) = (pages t)[k] := by
  obtain ⟨header, hheader, hdump⟩ := dump_eq_pages t
  have hpost : dump t = header ++ ((pages t).flatMap Pod.toBytes ++ []) := by
    rw [hdump, List.append_nil]
  apply readAt_eq hpost hk
  rw [hheader, Nat.mul_add]
  rfl

theorem numRows_dump (hrows : t.numRows < 2 ^ 64) :
    (readAt UInt64 (dump t) 0).toNat = t.numRows := by
  have h : readAt UInt64 (dump t) 0 = UInt64.ofNat t.numRows :=
    readAt_eq (k := 0) ((dump_eq t).trans (List.nil_append _).symm) Nat.two_pos rfl
  rw [h, UInt64.toNat_ofNat', Nat.mod_eq_of_lt hrows]

theorem numCols_dump (hcols : t.columns.length ≤ 16) : numCols (dump t) = t.columns.length := by
  have h : readAt UInt64 (dump t) 8 = UInt64.ofNat t.columns.length :=
    readAt_eq (k := 1) ((dump_eq t).trans (List.nil_append _).symm) Nat.one_lt_two rfl
  unfold numCols
  rw [h, UInt64.toNat_ofNat', Nat.mod_eq_of_lt (by omega)]

theorem typeAt_dump {i : Nat} (hi : i < t.columns.length) (hcols : t.columns.length ≤ 16) :
    typeAt (dump t) i = t.columns[i].type.code := by
  have hlen : i < (List.ofFn (tablemeta t).types).length := by
    rw [List.length_ofFn]
    omega
  have h : typeAt (dump t) i = (List.ofFn (tablemeta t).types)[i] := by
    apply readAt_eq (dump_eq t) hlen
    simp [Pod.size]
  rw [h, List.getElem_ofFn]
  simp only [tablemeta, List.getElem?_eq_getElem hi]

theorem numPages_dump {i : Nat} (hi : i < t.columns.length) (hcols : t.columns.length ≤ 16)
    (hsize : t.columns[i].pages.length < 2 ^ 64) :
    numPages (dump t) i = t.columns[i].pages.length := by
  have hlen : i < (List.ofFn (tablemeta t).numPages).length := by
    rw [List.length_ofFn]
    omega
  have h : readAt UInt64 (dump t) (80 + 8 * i) = (List.ofFn (tablemeta t).numPages)[i] := by
    apply readAt_eq ((dump_eq t).trans (List.append_assoc _ _ _).symm) hlen
    simp only [List.length_append, length_flatMap_toBytes, List.length_ofFn]
    rfl
  unfold numPages
  rw [h, List.getElem_ofFn]
  simp only [tablemeta, List.getElem?_eq_getElem hi]
  rw [UInt64.toNat_ofNat', Nat.mod_eq_of_lt hsize]

/-- The pages of the columns before one come before its own. -/
theorem pagesBefore_dump {k : Nat} (hk : k ≤ t.columns.length) (hcols : t.columns.length ≤ 16)
    (hsize : ∀ c ∈ t.columns, c.pages.length < 2 ^ 64) :
    pagesBefore (dump t) k = 1 + ((t.columns.take k).flatMap Column.pages).length := by
  induction k with
  | zero => rfl
  | succ k ih =>
    rw [pagesBefore_succ, ih (by omega), numPages_dump hk hcols (hsize _ (List.getElem_mem hk)),
      List.take_succ_eq_append_getElem hk, List.flatMap_append, List.length_append, Nat.add_assoc]
    simp

/-- The `j`-th page of a column is read where the loader sets the pointer to it. -/
theorem readAt_column {i j : Nat} (hi : i < t.columns.length) (hcols : t.columns.length ≤ 16)
    (hsize : ∀ c ∈ t.columns, c.pages.length < 2 ^ 64) (hj : j < t.columns[i].pages.length) :
    readAt Page (dump t) (8192 * (pagesBefore (dump t) i + j)) = t.columns[i].pages[j] := by
  have hsplit : pages t = (t.columns.take i).flatMap Column.pages ++
      (t.columns[i].pages ++ (t.columns.drop (i + 1)).flatMap Column.pages) := by
    rw [← List.flatMap_cons, List.cons_getElem_drop_succ, ← List.flatMap_append,
      List.take_append_drop]
    rfl
  rw [pagesBefore_dump hi.le hcols hsize, Nat.add_assoc, readAt_page (by
    rw [hsplit, List.length_append, List.length_append]
    omega)]
  simp only [hsplit]
  rw [List.getElem_append_right (by omega), List.getElem_append_left (by omega)]
  simp only [Nat.add_sub_cancel_left]

theorem view_column {i : Nat} (hi : i < t.columns.length) (hcols : t.columns.length ≤ 16)
    (hsize : ∀ c ∈ t.columns, c.pages.length < 2 ^ 64) :
    (column (dump t) i).view (dump t) = some t.columns[i] := by
  have hpages : (column (dump t) i).pages.map (readAt Page (dump t)) = t.columns[i].pages := by
    have hnum := numPages_dump hi hcols (hsize _ (List.getElem_mem hi))
    apply List.ext_getElem (by simp [column, hnum])
    intro j _ hj
    simp only [column, List.getElem_map, List.getElem_range]
    exact readAt_column hi hcols hsize hj
  have htype : DataType.ofCode (column (dump t) i).type = some t.columns[i].type := by
    unfold column
    rw [typeAt_dump hi hcols, DataType.ofCode_code]
  unfold CachedColumn.view
  rw [htype, hpages]
  rfl

theorem mapM_view {k : Nat} (hk : k ≤ t.columns.length) (hcols : t.columns.length ≤ 16)
    (hsize : ∀ c ∈ t.columns, c.pages.length < 2 ^ 64) :
    ((List.range k).map (column (dump t))).mapM (CachedColumn.view (dump t)) =
      some (t.columns.take k) := by
  induction k with
  | zero => rfl
  | succ k ih =>
    rw [List.range_succ, List.map_append, List.mapM_append, ih (by omega), List.map_singleton,
      List.take_succ_eq_append_getElem hk]
    simp [view_column hk hcols hsize]

end DumpTable

/-- What `dump` writes is loaded as the same table: the same number of rows and columns of the same
types, with the same pages in the same order. -/
theorem fromCache_dump {maxSize : Nat} (hmaxSize : maxSize < 2 ^ 64) {t : ColumnarTable}
    (hcols : t.columns.length ≤ 16) (hrows : t.numRows < 2 ^ 64)
    (hpages : ∀ c ∈ t.columns, c.pages.length ≤ maxSize) :
    ∃ cached, fromCache maxSize (DumpTable.dump t) = .ok cached ∧
      cached.view (DumpTable.dump t) = some t := by
  have hsize : ∀ c ∈ t.columns, c.pages.length < 2 ^ 64 :=
    fun c hc => (hpages c hc).trans_lt hmaxSize
  have hlen := DumpTable.length_dump t
  have hcount := DumpTable.numCols_dump hcols
  have hfew : ∀ i < t.columns.length, TableCache.numPages (DumpTable.dump t) i ≤ maxSize := by
    intro i hi
    rw [DumpTable.numPages_dump hi hcols (hsize _ (List.getElem_mem hi))]
    exact hpages _ (List.getElem_mem hi)
  have hload : fromCache maxSize (DumpTable.dump t) = _ :=
    TableCache.fromCache_eq (by omega) (by omega) (by rwa [hcount])
  refine ⟨_, hload, ?_⟩
  have hview := DumpTable.mapM_view le_rfl hcols hsize
  rw [List.take_length] at hview
  unfold CachedTable.view
  rw [hcount, hview]
  exact congrArg (fun n => some (ColumnarTable.mk n t.columns)) (DumpTable.numRows_dump hrows)

/-- A string column without a page and an `INT32` column with one. -/
theorem fromCache_dump_two :
    ∃ cached, fromCache 1000 (DumpTable.dump ⟨3, [⟨.varchar, []⟩, ⟨.int32, [Buf.zero 8192]⟩]⟩) =
        .ok cached ∧
      cached.view (DumpTable.dump ⟨3, [⟨.varchar, []⟩, ⟨.int32, [Buf.zero 8192]⟩]⟩) =
        some ⟨3, [⟨.varchar, []⟩, ⟨.int32, [Buf.zero 8192]⟩]⟩ :=
  fromCache_dump (by decide) (by decide) (by decide) (by simp)

/-! ## Damaged files -/

/-- The fault is an exception. -/
def CacheFault.Thrown : CacheFault → Prop
  | runtimeError | lengthError => True
  | outOfFile => False

/-- The file is loaded with all its pages inside it, or there is an exception. The metadata is read
inside the file unless the loading stops. -/
def Reported (maxSize : Nat) (content : List UInt8) : Prop :=
  match fromCache maxSize content with
  | .ok t => ∀ c ∈ t.columns, ∀ page ∈ c.pages, page + 8192 ≤ content.length
  | .error fault => fault.Thrown

open TableCache

/-- Every page of the first `k` columns is inside the file if the last one is, or if there is
none. -/
theorem column_pages_inside {content : List UInt8} {k : Nat} :
    (∀ c ∈ (List.range k).map (column content), ∀ page ∈ c.pages,
        page + 8192 ≤ content.length) ↔
      pagesBefore content k = 1 ∨ 8192 * pagesBefore content k ≤ content.length := by
  constructor
  · intro h
    induction k with
    | zero => exact .inl rfl
    | succ k ih =>
      rw [List.range_succ, List.map_append] at h
      rw [pagesBefore_succ]
      rcases Nat.eq_zero_or_pos (numPages content k) with hz | hpos
      · rw [hz]
        exact ih fun c hc => h c (List.mem_append_left _ hc)
      · have hlast := h (column content k) (List.mem_append_right _ (List.mem_singleton_self _))
          (8192 * (pagesBefore content k + (numPages content k - 1)))
          (List.mem_map_of_mem (List.mem_range.mpr (by omega)))
        omega
  · intro h c hc page hpage
    obtain ⟨i, hi, rfl⟩ := List.mem_map.mp hc
    obtain ⟨j, hj, rfl⟩ := List.mem_map.mp hpage
    rw [List.mem_range] at hi hj
    have hend : pagesBefore content i + numPages content i ≤ pagesBefore content k := by
      rw [← pagesBefore_succ]
      exact pagesBefore_mono content hi
    have hone : 1 ≤ pagesBefore content i := Nat.le_add_right 1 _
    omega

/-- Some column that the file describes has more pages than a vector holds, or the file describes
all its columns and is as long as their pages need. -/
def Described (maxSize : Nat) (content : List UInt8) : Prop :=
  16 ≤ content.length ∧
    ((∃ i < numCols content, 88 + 8 * i ≤ content.length ∧ maxSize < numPages content i) ∨
      (numCols content = 0 ∨ 80 + 8 * numCols content ≤ content.length) ∧
        (pagesBefore content (numCols content) = 1 ∨
          8192 * pagesBefore content (numCols content) ≤ content.length))

section Damaged

variable {maxSize : Nat} {content : List UInt8}

theorem Described.reported (h : Described maxSize content) : Reported maxSize content := by
  obtain ⟨h16, h⟩ := h
  unfold Reported
  by_cases hmax : ∃ i < numCols content, 88 + 8 * i ≤ content.length ∧
      maxSize < numPages content i
  · obtain ⟨i, hi, hmeta, hmaxi⟩ := hmax
    rw [fromCache_of_16_le h16, foldlM_loadColumn_lengthError hi hmeta hmaxi]
    trivial
  · obtain ⟨hmeta, hpages⟩ := h.resolve_left hmax
    have hfew : ∀ i < numCols content, numPages content i ≤ maxSize := fun i hi => by
      by_contra hgt
      exact hmax ⟨i, hi, by omega, not_le.mp hgt⟩
    rw [fromCache_eq h16 hmeta hfew]
    exact column_pages_inside.mpr hpages

theorem Reported.described (h : Reported maxSize content) (hne : content ≠ []) :
    Described maxSize content := by
  have hlen : content.length ≠ 0 := fun hz => hne (List.length_eq_zero_iff.mp hz)
  unfold Reported at h
  have h16 : 16 ≤ content.length := by
    by_contra hlt
    have hcols : readMeta UInt64 content 8 = .error .outOfFile :=
      if_neg (by simpa [Pod.size] using hlt)
    have hload : fromCache maxSize content = .error .outOfFile := by
      unfold fromCache
      rw [if_neg hlen, hcols]
      rfl
    rw [hload] at h
    exact h
  refine ⟨h16, or_iff_not_imp_left.mpr fun hmax => ?_⟩
  have hfew : ∀ i < numCols content, 88 + 8 * i ≤ content.length →
      numPages content i ≤ maxSize := fun i hi hmeta => by
    by_contra hgt
    exact hmax ⟨i, hi, hmeta, not_le.mp hgt⟩
  by_cases hmeta : numCols content = 0 ∨ 80 + 8 * numCols content ≤ content.length
  · rw [fromCache_eq h16 hmeta fun i hi => hfew i hi (by omega)] at h
    exact ⟨hmeta, column_pages_inside.mp h⟩
  · rw [fromCache_of_16_le h16, foldlM_loadColumn_outOfFile hmeta hfew] at h
    exact h.elim

/-- A file that is not empty is found to be damaged or has all its pages inside it exactly in these
two cases: nothing else is found. -/
theorem reported_iff (maxSize : Nat) {content : List UInt8} (hne : content ≠ []) :
    Reported maxSize content ↔ Described maxSize content :=
  ⟨fun h => h.described hne, Described.reported⟩

/-- A dumped table has all the pages that it counts. -/
theorem Described.dump (hmaxSize : maxSize < 2 ^ 64) {t : ColumnarTable}
    (hcols : t.columns.length ≤ 16) (hpages : ∀ c ∈ t.columns, c.pages.length ≤ maxSize) :
    Described maxSize (DumpTable.dump t) := by
  have hsize : ∀ c ∈ t.columns, c.pages.length < 2 ^ 64 :=
    fun c hc => (hpages c hc).trans_lt hmaxSize
  have hlength := DumpTable.length_dump t
  have hcount := DumpTable.numCols_dump hcols
  have hbefore := DumpTable.pagesBefore_dump le_rfl hcols hsize
  rw [List.take_length] at hbefore
  refine ⟨by omega, .inr ⟨.inr (by omega), .inr ?_⟩⟩
  rw [hcount, hbefore, hlength]
  rfl

/-- A column without pages and one with a page. -/
def twoColumns : ColumnarTable := ⟨3, [⟨.varchar, []⟩, ⟨.int32, [Buf.zero 8192]⟩]⟩

theorem reported_iff_twoColumns : (DumpTable.dump twoColumns).length = 16384 ∧
    Reported 1000 (DumpTable.dump twoColumns) := by
  have hlength := DumpTable.length_dump twoColumns
  have hpages : (DumpTable.pages twoColumns).length = 1 := rfl
  have hne : DumpTable.dump twoColumns ≠ [] := List.ne_nil_of_length_pos (by omega)
  have hdescribed : Described 1000 (DumpTable.dump twoColumns) := by
    refine .dump (by decide) (by decide) fun c hc => ?_
    rcases List.mem_pair.mp hc with rfl | rfl <;> decide
  rw [reported_iff 1000 hne]
  exact ⟨by omega, hdescribed⟩

theorem pagesBefore_take {n k : Nat} (hk : k = 0 ∨ 80 + 8 * k ≤ n) :
    pagesBefore (content.take n) k = pagesBefore content k := by
  induction k with
  | zero => rfl
  | succ k ih =>
    have hcount : numPages (content.take n) k = numPages content k :=
      congrArg UInt64.toNat (readAt_take content (by simp [Pod.size]; omega))
    rw [pagesBefore_succ, pagesBefore_succ, ih (by omega), hcount]

/-- A dump that was interrupted is never found to be damaged if it lost a page. -/
theorem not_reported_take (hmaxSize : maxSize < 2 ^ 64) {t : ColumnarTable}
    (hcols : t.columns.length ≤ 16) (hpages : ∀ c ∈ t.columns, c.pages.length ≤ maxSize)
    (hsome : DumpTable.pages t ≠ []) {n : Nat} (hpos : 0 < n)
    (hn : n < (DumpTable.dump t).length) : ¬ Reported maxSize ((DumpTable.dump t).take n) := by
  intro h
  have hsize : ∀ c ∈ t.columns, c.pages.length < 2 ^ 64 :=
    fun c hc => (hpages c hc).trans_lt hmaxSize
  have hdump := DumpTable.length_dump t
  have hlen : ((DumpTable.dump t).take n).length = n := List.length_take_of_le hn.le
  obtain ⟨h16, h⟩ := h.described (List.ne_nil_of_length_pos (by omega))
  have hcount : numCols ((DumpTable.dump t).take n) = t.columns.length := by
    rw [← DumpTable.numCols_dump hcols]
    exact congrArg UInt64.toNat (readAt_take _ (by simp [Pod.size]; omega))
  rw [hlen, hcount] at h
  rcases h with ⟨i, hi, hmeta, hmax⟩ | ⟨hmeta, hinside⟩
  · have hfew : numPages ((DumpTable.dump t).take n) i = t.columns[i].pages.length := by
      rw [← DumpTable.numPages_dump hi hcols (hsize _ (List.getElem_mem hi))]
      exact congrArg UInt64.toNat (readAt_take _ (by simp [Pod.size]; omega))
    have := hpages _ (List.getElem_mem hi)
    omega
  · have hall : pagesBefore (DumpTable.dump t) t.columns.length =
        1 + (DumpTable.pages t).length := by
      rw [DumpTable.pagesBefore_dump le_rfl hcols hsize, List.take_length]
      rfl
    have hpos := List.length_pos_iff.mpr hsome
    rw [pagesBefore_take hmeta, hall] at hinside
    omega

/-- One page, with only the metadata left of its file. -/
theorem not_reported_one :
    ¬ Reported 1000 ((DumpTable.dump ⟨1, [⟨.int32, [Buf.zero 8192]⟩]⟩).take 8192) := by
  refine not_reported_take (by decide) (by decide) (by simp) (by simp [DumpTable.pages])
    (by decide) ?_
  rw [DumpTable.length_dump]
  decide

end Damaged

end HashJoin
