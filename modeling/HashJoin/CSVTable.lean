import HashJoin.ColumnInserter64
import HashJoin.FilterProof
import HashJoin.FromCSVProof

/-!
# The table of a CSV file

`from_csv` ends with a bitmap of the rows to keep, without a filter all of them. Every column goes
through a `ColumnInserter`, and reading the table back gives these rows unless a value of eight
bytes meets the bitmap of its page. Whether there is one row per record is decided before: each
record must have one field per attribute. Files without records, and those rejected before a record
overruns, are handled as well.
-/

namespace HashJoin

open Bytes Interleave

/-! ## One column -/

/-- The pages that a column with the given cells is converted to. -/
def writeCells (fresh : Nat → Page) (type : DataType) (cells : List Data) : List Page :=
  match type with
  | .int32 => ColumnInserter.write fresh (cells.map Data.getInt32)
  | .int64 => ColumnInserter.write fresh (cells.map Data.getInt64)
  | .fp64 => ColumnInserter.write fresh (cells.map Data.getFp64)
  | .varchar => StringInserter.write fresh (cells.map Data.getVarchar)

theorem selects_ones (len : Nat) :
    Selects len (fun _ => true) (List.replicate ((len + 7) / 8) 0xff) := by
  refine ⟨List.length_replicate, fun i hi => ?_⟩
  have hbits : ∀ j < 8, testBit 0xff j = true := by decide
  have hlt : i / 8 < (len + 7) / 8 := by omega
  simp only [bitOf, bitAt, List.getD_eq_getElem?_getD, List.getElem?_replicate, if_pos hlt,
    Option.getD_some]
  exact hbits _ (Nat.mod_lt i (by decide))

/-- The elements at the places that satisfy `p`, in order. -/
def selected {α : Type} (p : Nat → Bool) (l : List α) : List α :=
  (l.zipIdx.filter fun x => p x.2).map Prod.fst

theorem selected_map {α β : Type} (f : α → β) (p : Nat → Bool) (l : List α) :
    selected p (l.map f) = (selected p l).map f := by
  unfold selected
  rw [List.zipIdx_map, List.filter_map, List.map_map, List.map_map]
  rfl

@[simp] theorem selected_all {α : Type} (l : List α) : selected (fun _ => true) l = l := by
  unfold selected
  rw [List.filter_true, List.zipIdx_map_fst]

/-- Places that are chosen by their elements. -/
theorem selected_eq_filter {α : Type} {p : Nat → Bool} {q : α → Bool} {l : List α}
    (h : ∀ i a, l[i]? = some a → p i = q a) : selected p l = l.filter q := by
  have hcongr : (l.zipIdx.filter fun x => p x.2) = l.zipIdx.filter (q ∘ Prod.fst) :=
    List.filter_congr fun x hx => h x.2 x.1 (List.mk_mem_zipIdx_iff_getElem?.mp hx)
  have hmap := List.filter_map (p := q) (f := Prod.fst) (l := l.zipIdx)
  rw [List.zipIdx_map_fst] at hmap
  rw [selected, hcongr, hmap]

/-- Going through the places. -/
theorem map_filter_range {α β : Type} {f : α → β} {g : Nat → β} {l : List α} (p : Nat → Bool)
    (h : ∀ i a, l[i]? = some a → g i = f a) :
    ((List.range l.length).filter p).map g = (selected p l).map f := by
  have hrange : List.range l.length = l.zipIdx.map Prod.snd := by
    rw [List.zipIdx_map_snd, List.range_eq_range']
  rw [hrange, List.filter_map, selected, List.map_map, List.map_map]
  refine List.map_congr_left fun x hx => ?_
  exact h x.2 x.1 (List.mk_mem_zipIdx_iff_getElem?.mp (List.mem_of_mem_filter hx))

/-- The rows of a column that the bitmap selects, put one after another. -/
theorem selectRows_selected {α σ : Type} (put : σ → Option α → σ) {rows : List (Option α)}
    {bitmap : List UInt8} {get : Nat → Except EvalFault α} (d : α)
    (hbitmap : Selects rows.length (fun i => (valueAt rows i).isSome) bitmap)
    (hget : ∀ i < rows.length, get i = .ok ((valueAt rows i).getD d)) {results : List UInt8}
    {p : Nat → Bool} (hresults : Selects rows.length p results) (inserter : σ) :
    FromInner.selectRows put bitmap get results rows.length inserter =
      .ok ((selected p rows).foldl put inserter, (selected p rows).length) := by
  have hrows := map_filter_range (f := id) (g := valueAt rows) (l := rows) p fun i a ha => by
    simp [valueAt, ha]
  rw [List.map_id] at hrows
  have hcount := congrArg List.length hrows
  rw [List.length_map] at hcount
  rw [selectRows_ok put d hbitmap hget hresults inserter le_rfl, hrows, hcount]

/-- A fixed-width column whose values are read as `rows`. -/
theorem fixed_selected {T : Type} [Pod T] (fresh : Nat → Page) {rows : List (Option T)}
    {bitmap : List UInt8} (get : Nat → Except EvalFault T) (d : T)
    (hbitmap : Selects rows.length (fun i => (valueAt rows i).isSome) bitmap)
    (hget : ∀ i < rows.length, get i = .ok ((valueAt rows i).getD d)) {results : List UInt8}
    {p : Nat → Bool} (hresults : Selects rows.length p results) :
    fromInnerToColumn.fixed fresh results rows.length bitmap get =
      .ok (ColumnInserter.write fresh (selected p rows), (selected p rows).length) := by
  unfold fromInnerToColumn.fixed
  rw [selectRows_selected (ColumnInserter.put fresh) d hbitmap hget hresults, ok_bind]
  rfl

/-- The selected rows of a column are written as a column of their cells. -/
theorem fromInnerToColumn_selected (fresh : Nat → Page) (type : DataType) (cells : List Data)
    {results : List UInt8} {p : Nat → Bool} (hresults : Selects cells.length p results) :
    fromInnerToColumn fresh (.build type cells) results cells.length =
      .ok (writeCells fresh type (selected p cells), (selected p cells).length) := by
  cases type with
  | int32 =>
    have h := InnerColumn.Holds.empty.foldl (cells.map Data.getInt32)
    rw [List.nil_append] at h
    rw [← List.length_map Data.getInt32] at hresults
    have hrun := fixed_selected fresh _ default h.bitmap (fun i hi => h.get hi) hresults
    rwa [List.length_map, selected_map, List.length_map] at hrun
  | int64 =>
    have h := InnerColumn.Holds.empty.foldl (cells.map Data.getInt64)
    rw [List.nil_append] at h
    rw [← List.length_map Data.getInt64] at hresults
    have hrun := fixed_selected fresh _ default h.bitmap (fun i hi => h.get hi) hresults
    rwa [List.length_map, selected_map, List.length_map] at hrun
  | fp64 =>
    have h := InnerColumn.Holds.empty.foldl (cells.map fun cell => cell.getFp64.map Fp64.mk)
    rw [List.nil_append] at h
    have hvalue : ∀ i, valueAt (cells.map fun cell => cell.getFp64.map Fp64.mk) i =
        (valueAt (cells.map Data.getFp64) i).map Fp64.mk := fun i => by
      cases hcell : cells[i]? <;> simp [valueAt, hcell]
    have hbitmap : Selects (cells.map Data.getFp64).length
        (fun i => (valueAt (cells.map Data.getFp64) i).isSome)
        ((cells.map fun cell => cell.getFp64.map Fp64.mk).foldl InnerColumn.push {}).bitmap := by
      simpa [hvalue] using h.bitmap
    rw [← List.length_map Data.getFp64] at hresults
    have hrun := fixed_selected fresh
      (fun i => do
        .ok (← (InnerColumn.get ((cells.map fun cell => cell.getFp64.map Fp64.mk).foldl
          InnerColumn.push {}) i)).bits)
      0 hbitmap (fun i hi => by
        rw [h.get (by simpa using hi), hvalue, ok_bind]
        cases valueAt (cells.map Data.getFp64) i <;> rfl) hresults
    rwa [List.length_map, selected_map, List.length_map] at hrun
  | varchar =>
    have h := InnerStringColumn.Holds.empty.foldl (cells.map Data.getVarchar)
    rw [List.nil_append] at h
    rw [← List.length_map Data.getVarchar] at hresults
    have hrun := selectRows_selected (StringInserter.put fresh) [] h.bitmap (fun i hi => h.get hi)
      hresults {}
    rw [List.length_map, selected_map, List.length_map] at hrun
    unfold fromInnerToColumn
    simp only [InnerColumnBase.build]
    rw [hrun, ok_bind]
    rfl

/-! ## Reading the column back -/

/-- What the pages of a column are read as. A value of eight bytes may have been inserted at a
cramped page. -/
def storedCells (fresh : Nat → Page) : DataType → List Data → List Data
  | .int64, cells =>
    (ColumnInserter.storedRows fresh {} (cells.map Data.getInt64)).map (cellOf Data.int64)
  | .fp64, cells =>
    (ColumnInserter.storedRows fresh {} (cells.map Data.getFp64)).map (cellOf Data.fp64)
  | .int32, cells | .varchar, cells => cells

/-- No value of the column is changed by the bitmap over its high bytes. -/
def Kept (fresh : Nat → Page) : DataType → List Data → Prop
  | .int64, cells => ColumnInserter.CrampedAgree fresh (cells.map Data.getInt64)
  | .fp64, cells => ColumnInserter.CrampedAgree fresh (cells.map Data.getFp64)
  | .int32, _ | .varchar, _ => True

/-- Cells that are NULL or made by `mk`. -/
theorem map_cellOf {α : Type} (mk : α → Data) (get : Data → Option α)
    (hget : ∀ x, get (mk x) = some x) (hnull : get .null = none) {cells : List Data}
    (h : ∀ v ∈ cells, v = .null ∨ ∃ x, v = mk x) : (cells.map get).map (cellOf mk) = cells := by
  obtain ⟨rows, rfl⟩ := exists_rows mk h
  have hcall : (fun call => cellOf mk (get (cellOf mk call))) = cellOf mk := by
    funext call
    cases call with
    | none => simp [cellOf, hnull]
    | some x => simp [cellOf, hget]
  rw [List.map_map, List.map_map]
  exact congrArg (List.map · rows) hcall

theorem map_getInt32 {cells : List Data} (h : ∀ v ∈ cells, v.HasType .int32) :
    (cells.map Data.getInt32).map (cellOf Data.int32) = cells :=
  map_cellOf Data.int32 Data.getInt32 (fun _ => rfl) rfl fun v hv => by
    have := h v hv
    cases v <;> simp_all [Data.HasType]

theorem map_getInt64 {cells : List Data} (h : ∀ v ∈ cells, v.HasType .int64) :
    (cells.map Data.getInt64).map (cellOf Data.int64) = cells :=
  map_cellOf Data.int64 Data.getInt64 (fun _ => rfl) rfl fun v hv => by
    have := h v hv
    cases v <;> simp_all [Data.HasType]

theorem map_getFp64 {cells : List Data} (h : ∀ v ∈ cells, v.HasType .fp64) :
    (cells.map Data.getFp64).map (cellOf Data.fp64) = cells :=
  map_cellOf Data.fp64 Data.getFp64 (fun _ => rfl) rfl fun v hv => by
    have := h v hv
    cases v <;> simp_all [Data.HasType]

theorem map_getVarchar {cells : List Data} (h : ∀ v ∈ cells, v.HasType .varchar) :
    (cells.map Data.getVarchar).map (cellOf Data.varchar) = cells :=
  map_cellOf Data.varchar Data.getVarchar (fun _ => rfl) rfl fun v hv => by
    have := h v hv
    cases v <;> simp_all [Data.HasType]

theorem readColumn_writeCells (fresh : Nat → Page) {type : DataType} {cells : List Data}
    (h : ∀ v ∈ cells, v.HasType type) :
    readColumn cells.length ⟨type, writeCells fresh type cells⟩ =
      .ok (storedCells fresh type cells) := by
  cases type with
  | int32 =>
    obtain ⟨chunks, hchunks, hpages⟩ :=
      (ColumnInserter.write_ok fresh rfl (cells.map Data.getInt32)).chunks
    exact readColumn_holds ⟨chunks, by rw [← hchunks, map_getInt32 h], hpages⟩
  | int64 =>
    obtain ⟨chunks, hchunks, hpages, -⟩ :=
      ColumnInserter.write_reads fresh rfl (cells.map Data.getInt64)
    have htype : readPage .int64 = readFixed 8 Data.int64 := rfl
    have hread := readColumn_fixed htype hpages
    rwa [← hchunks, ColumnInserter.length_storedRows, List.length_map] at hread
  | fp64 =>
    obtain ⟨chunks, hchunks, hpages, -⟩ :=
      ColumnInserter.write_reads fresh rfl (cells.map Data.getFp64)
    have htype : readPage .fp64 = readFixed 8 Data.fp64 := rfl
    have hread := readColumn_fixed htype hpages
    rwa [← hchunks, ColumnInserter.length_storedRows, List.length_map] at hread
  | varchar =>
    obtain ⟨segs, hsegs, hpages, -⟩ := StringInserter.write_ok fresh (cells.map Data.getVarchar)
    exact readColumn_holds ⟨segs, by rw [← hsegs, map_getVarchar h], hpages⟩

theorem length_storedCells (fresh : Nat → Page) (type : DataType) (cells : List Data) :
    (storedCells fresh type cells).length = cells.length := by
  cases type <;> simp [storedCells, ColumnInserter.length_storedRows]

theorem storedCells_eq_iff (fresh : Nat → Page) {type : DataType} {cells : List Data}
    (h : ∀ v ∈ cells, v.HasType type) : storedCells fresh type cells = cells ↔
      Kept fresh type cells := by
  cases type with
  | int32 => exact iff_of_true rfl trivial
  | int64 =>
    show List.map _ _ = cells ↔ ColumnInserter.CrampedAgree _ _
    rw [ColumnInserter.crampedAgree_iff]
    conv_lhs => rhs; rw [← map_getInt64 h]
    exact (List.map_injective_iff.mpr ColumnInserter.cellOf_int64_inj).eq_iff
  | fp64 =>
    show List.map _ _ = cells ↔ ColumnInserter.CrampedAgree _ _
    rw [ColumnInserter.crampedAgree_iff]
    conv_lhs => rhs; rw [← map_getFp64 h]
    exact (List.map_injective_iff.mpr ColumnInserter.cellOf_fp64_inj).eq_iff
  | varchar => exact iff_of_true rfl trivial

/-! ## The conversion -/

namespace FilterThreadPool

theorem mem_columnsOf {n m t k : Nat} :
    k ∈ columnsOf n m t ↔ beginIdx n m t ≤ k ∧ k < beginIdx n m (t + 1) := by
  unfold columnsOf rangeOf
  by_cases hlt : beginIdx n m t < beginIdx n m (t + 1)
  · simp only [hlt, if_true, List.mem_range'_1]
    omega
  · simp only [hlt, if_false, List.not_mem_nil, false_iff]
    omega

/-- Every column is taken, and nothing else. -/
theorem mem_complete_columnsOf {n : Nat} (hn : 0 < n) (sched : List Nat) {m k : Nat} :
    (∃ x ∈ complete n (columnsOf n m) sched, x.2 = k) ↔ k < m := by
  constructor
  · rintro ⟨x, hx, rfl⟩
    obtain ⟨hlt, hmem⟩ := mem_complete hx
    obtain ⟨hlo, hhi⟩ := mem_columnsOf.mp hmem
    exact ((splits hn m).covers x.2).mpr ⟨x.1, hlt, hlo, hhi⟩
  · intro hk
    obtain ⟨t, ht, hlo, hhi⟩ := ((splits hn m).covers k).mp hk
    have hmem : (t, k) ∈ (complete n (columnsOf n m) sched).filter fun x => x.1 = t := by
      rw [filter_complete _ _ ht]
      exact List.mem_map.mpr ⟨k, mem_columnsOf.mpr ⟨hlo, hhi⟩, rfl⟩
    exact ⟨(t, k), (List.mem_filter.mp hmem).1, rfl⟩

end FilterThreadPool

/-- The pages of column `i` of the rows. -/
def pagesOf (fresh : Nat → Nat → Page) (attributes : List DataType) (rows : List (List Data))
    (i : Nat) : List Page :=
  match attributes[i]? with
  | some type => writeCells (fresh i) type (Table.column ⟨rows, attributes⟩ i)
  | none => []

/-- The end of `from_csv`, which writes the rows whose bit in `results` is set. -/
def convertSelected (n : Nat) (sched : List Nat) (fresh : Nat → Nat → Page) (retRows : Nat)
    (table : InnerTable) (results : List UInt8) : Except Fault ColumnarTable :=
  (complete n (FilterThreadPool.columnsOf n table.columns.length) sched).foldlM
    (fun ret x => convertColumn fresh table results ret x.2)
    { numRows := retRows, columns := table.columns.map fun column => ⟨column.type, []⟩ }

section Convert

variable {attributes : List DataType} {rows : List (List Data)} {table : InnerTable}
  (h : table.Holds attributes rows) (fresh : Nat → Nat → Page) {results : List UInt8}
  {p : Nat → Bool} (hresults : Selects rows.length p results)
include h hresults

theorem convertColumn_ok (retRows : Nat) (pages : Nat → List Page) {k : Nat}
    (hk : k < attributes.length) :
    convertColumn fresh table results ⟨retRows, perColumn Column.mk attributes pages⟩ k =
      .ok ⟨(selected p rows).length, perColumn Column.mk attributes
        (Function.update pages k (pagesOf fresh attributes (selected p rows) k))⟩ := by
  have htype : attributes[k]? = some attributes[k] := List.getElem?_eq_getElem hk
  have hlen : (Table.column ⟨rows, attributes⟩ k).length = rows.length := List.length_map _
  have hcells : selected p (Table.column ⟨rows, attributes⟩ k) =
      Table.column ⟨selected p rows, attributes⟩ k := selected_map _ p rows
  have hwrite := fromInnerToColumn_selected (fresh k) attributes[k]
    (Table.column ⟨rows, attributes⟩ k) (hlen ▸ hresults)
  rw [hlen, hcells] at hwrite
  have hcount : (Table.column ⟨selected p rows, attributes⟩ k).length = (selected p rows).length :=
    List.length_map _
  rw [hcount] at hwrite
  unfold convertColumn
  rw [h.columns, h.numRows]
  simp only [getElem?_perColumn, htype, Option.map_some, hwrite, Except.mapError, ok_bind]
  rw [← set_perColumn htype]
  simp [pagesOf, htype]

/-- The columns of some steps. -/
theorem foldlM_convertColumn (steps : List (Nat × Nat))
    (hsteps : ∀ x ∈ steps, x.2 < attributes.length) (retRows : Nat) (pages : Nat → List Page) :
    ∃ pages', steps.foldlM (fun ret x => convertColumn fresh table results ret x.2)
        ⟨retRows, perColumn Column.mk attributes pages⟩ =
        .ok ⟨if steps = [] then retRows else (selected p rows).length,
          perColumn Column.mk attributes pages'⟩ ∧
      ∀ x ∈ steps, pages' x.2 = pagesOf fresh attributes (selected p rows) x.2 := by
  induction steps using List.reverseRecOn with
  | nil => exact ⟨pages, rfl, by simp⟩
  | append_singleton steps x ih =>
    obtain ⟨pages', hrun, hpages⟩ := ih fun y hy => hsteps y (by simp [hy])
    refine ⟨Function.update pages' x.2 (pagesOf fresh attributes (selected p rows) x.2), ?_,
      fun y hy => ?_⟩
    · have hstep := convertColumn_ok h fresh hresults
        (if steps = [] then retRows else (selected p rows).length) pages' (hsteps x (by simp))
      rw [List.foldlM_append, hrun, ok_bind, List.foldlM_cons, hstep]
      simp [pure, Except.pure]
    · by_cases hxy : y.2 = x.2
      · rw [hxy, Function.update_self]
      · rw [Function.update_of_ne hxy]
        refine hpages y ((List.mem_append.mp hy).resolve_right fun hy => hxy ?_)
        rw [List.mem_singleton.mp hy]

/-- The table that `from_csv` returns for the selected rows. -/
theorem convertSelected_ok {n : Nat} (hn : 0 < n) (sched : List Nat) (retRows : Nat) :
    convertSelected n sched fresh retRows table results =
      .ok ⟨if attributes = [] then retRows else (selected p rows).length,
        perColumn Column.mk attributes (pagesOf fresh attributes (selected p rows))⟩ := by
  have hlen : table.columns.length = attributes.length := by
    simp [h.columns, perColumn]
  have hempty : (table.columns.map fun column => (⟨column.type, []⟩ : Column)) =
      perColumn Column.mk attributes fun _ => [] := by
    refine List.ext_getElem? fun i => ?_
    rw [List.getElem?_map, h.columns, getElem?_perColumn, getElem?_perColumn, Option.map_map]
    congr 1
    funext type
    cases type <;> rfl
  have hmem : ∀ k, (∃ x ∈ complete n (FilterThreadPool.columnsOf n attributes.length) sched,
      x.2 = k) ↔ k < attributes.length :=
    fun k => FilterThreadPool.mem_complete_columnsOf hn sched
  obtain ⟨pages, hrun, hpages⟩ := foldlM_convertColumn h fresh hresults
    (complete n (FilterThreadPool.columnsOf n attributes.length) sched)
    (fun x hx => (hmem x.2).mp ⟨x, hx, rfl⟩) retRows fun _ => []
  have hnil : complete n (FilterThreadPool.columnsOf n attributes.length) sched = [] ↔
      attributes = [] := by
    rw [← List.length_eq_zero_iff (l := attributes), List.eq_nil_iff_forall_not_mem]
    refine ⟨fun hnone => ?_, fun hzero x hx => ?_⟩
    · by_contra hpos
      obtain ⟨x, hx, -⟩ := (hmem 0).mpr (Nat.pos_of_ne_zero hpos)
      exact hnone x hx
    · have := (hmem x.2).mp ⟨x, hx, rfl⟩
      omega
  have hcongr : perColumn Column.mk attributes pages =
      perColumn Column.mk attributes (pagesOf fresh attributes (selected p rows)) :=
    perColumn_congr fun i hi => by
      obtain ⟨x, hx, rfl⟩ := (hmem i).mpr hi
      exact hpages x hx
  unfold convertSelected
  rw [hlen, hempty, hrun, hcongr]
  simp only [hnil]

omit hresults in
/-- Without a filter these are all rows. -/
theorem convert_ok {n : Nat} (hn : 0 < n) (sched : List Nat) (retRows : Nat) :
    convert n sched fresh retRows table =
      .ok ⟨if attributes = [] then retRows else rows.length,
        perColumn Column.mk attributes (pagesOf fresh attributes rows)⟩ := by
  have hall := convertSelected_ok h fresh (selects_ones rows.length) hn sched retRows
  rw [selected_all, ← h.numRows] at hall
  rw [← h.numRows]
  exact hall

end Convert

/-! ## Reading the table back -/

/-- Columns that give the same rows are the same. -/
theorem columns_eq_of_rows {α β : Type} {n : Nat} {l : List α} {f g : α → List β} {d : β}
    (hf : ∀ x ∈ l, (f x).length = n) (hg : ∀ x ∈ l, (g x).length = n)
    (h : ((List.range n).map fun i => (l.map f).map fun c => c.getD i d) =
      (List.range n).map fun i => (l.map g).map fun c => c.getD i d) : ∀ x ∈ l, f x = g x := by
  intro x hx
  apply List.ext_getElem ((hf x hx).trans (hg x hx).symm)
  intro i hi hi'
  have hrow := List.map_inj_left.mp h i (List.mem_range.mpr (by rwa [← hf x hx]))
  rw [List.map_map, List.map_map] at hrow
  have hcell := List.map_inj_left.mp hrow x hx
  simpa [hi, hi'] using hcell

/-- Reading the table back gives the rows if and only if all columns keep their values. -/
theorem fromColumnar_pagesOf (fresh : Nat → Nat → Page) {t : Table} (h : t.WellTyped) :
    fromColumnar ⟨t.data.length, perColumn Column.mk t.types (pagesOf fresh t.types t.data)⟩ =
      .ok t ↔ ∀ i type, t.types[i]? = some type → Kept (fresh i) type (t.column i) := by
  have hmem : ∀ x : DataType × Nat, x ∈ t.types.zipIdx ↔ t.types[x.2]? = some x.1 :=
    fun x => List.mk_mem_zipIdx_iff_getElem?
  have hread : (perColumn Column.mk t.types (pagesOf fresh t.types t.data)).mapM
      (readColumn t.data.length) =
        .ok (t.types.zipIdx.map fun x => storedCells (fresh x.2) x.1 (t.column x.2)) := by
    unfold perColumn
    rw [List.mapM_map]
    apply mapM_eq_map
    intro x hx
    have htype := (hmem x).mp hx
    have hcolumn := readColumn_writeCells (fresh x.2) (h.column_hasType htype)
    rw [Table.column, List.length_map, ← Table.column] at hcolumn
    simp only [Function.comp_apply, pagesOf, htype]
    exact hcolumn
  have htypes : (perColumn Column.mk t.types (pagesOf fresh t.types t.data)).map Column.type =
      t.types := by
    unfold perColumn
    rw [List.map_map]
    exact List.zipIdx_map_fst 0 t.types
  have hlen : ∀ i, (t.column i).length = t.data.length := fun i => List.length_map _
  have hkept : ∀ x ∈ t.types.zipIdx, storedCells (fresh x.2) x.1 (t.column x.2) = t.column x.2 ↔
      Kept (fresh x.2) x.1 (t.column x.2) :=
    fun x hx => storedCells_eq_iff (fresh x.2) (h.column_hasType ((hmem x).mp hx))
  unfold fromColumnar
  simp only [hread, ok_bind, htypes]
  constructor
  · intro heq i type htype
    have hdata := congrArg Table.data (Except.ok.inj heq)
    have hx : (type, i) ∈ t.types.zipIdx := (hmem (type, i)).mpr htype
    refine (hkept (type, i) hx).mp (columns_eq_of_rows (l := t.types.zipIdx)
      (g := fun x => t.column x.2) (d := .null) (fun x _ => ?_) (fun x _ => hlen x.2)
      (hdata.trans h.rows_of_columns.symm) (type, i) hx)
    rw [length_storedCells, hlen]
  · intro hall
    have hcolumns : (t.types.zipIdx.map fun x => storedCells (fresh x.2) x.1 (t.column x.2)) =
        t.types.zipIdx.map fun x => t.column x.2 :=
      List.map_congr_left fun x hx => (hkept x hx).mpr (hall x.2 x.1 ((hmem x).mp hx))
    rw [hcolumns, h.rows_of_columns]

/-! ## The whole file -/

/-- The records of a file without its header. -/
def dataRecords (header : Bool) (content : List UInt8) : List (List (List UInt8)) :=
  (recordsOf content).1.drop (if header then 1 else 0)

/-- The table has one row per record, with the values of its fields. -/
structure LoadedAs (stod : Stod) (attributes : List DataType) (records : List (List (List UInt8)))
    (table : ColumnarTable) : Prop where
  width : ∀ record ∈ records, record.length = attributes.length
  numRows : table.numRows = records.length
  values : ∃ rows, records.mapM (readFields stod attributes) = .ok rows ∧
    fromColumnar table = .ok ⟨rows, attributes⟩

/-- The result is an exception, or a table with the records. -/
def LoadsOrThrows (stod : Stod) (attributes : List DataType)
    (records : List (List (List UInt8))) (result : Except Fault ColumnarTable) : Prop :=
  (∃ what, result = .error (.runtimeError what)) ∨
    ∃ table, result = .ok table ∧ LoadedAs stod attributes records table

/-- No value of the records is changed by the bitmap of its page. -/
def KeepsValues (fresh : Nat → Nat → Page) (stod : Stod) (attributes : List DataType)
    (records : List (List (List UInt8))) : Prop :=
  ∀ rows, records.mapM (readFields stod attributes) = .ok rows →
    ∀ i type, attributes[i]? = some type →
      Kept (fresh i) type (Table.column ⟨rows, attributes⟩ i)

/-- The records are rejected, or there are none, or each has one field per attribute. Without
attributes `ret_rows` is not stored, and the one record the parser makes of an empty file is a row
if there is one attribute. -/
def Loadable (fresh : Nat → Nat → Page) (retRows : Nat) (stod : Stod)
    (attributes : List DataType) (header : Bool) (content : List UInt8) : Prop :=
  Rejected stod attributes ((recordsOf content).1.headD []).length (recordsOf content).2 false
      (dataRecords header content) ∨
    dataRecords header content = [] ∧ (attributes = [] → retRows = 0) ∧
      (content = [] → header = true ∨ attributes.length ≠ 1) ∨
    dataRecords header content ≠ [] ∧
      (∀ record ∈ dataRecords header content, record.length = attributes.length) ∧
      KeepsValues fresh stod attributes (dataRecords header content)

section File

variable {n : Nat} (hn : 0 < n) (sched : List Nat) (fresh : Nat → Nat → Page) (retRows : Nat)
  (stod : Stod) (attributes : List DataType) (header : Bool)

/-- What is loaded before the conversion. -/
def loadFile (buffers : List (List UInt8)) : Except Fault TableParser :=
  if buffers = [] then onField stod attributes header (.start attributes) ⟨0, 0, []⟩
  else
    let r := recordsOf buffers.flatten
    runRecords stod attributes header (r.1.headD []).length 0 r.2 r.1 (.start attributes)

/-- The calls for a file and the result of the parser, with what is done in the end. -/
theorem parse_eq {α : Type} (k : TableParser → Except Fault α) {buffers : List (List UInt8)}
    (hne : ∀ b ∈ buffers, b ≠ []) :
    (let parser : CSVParser := { escape := backslash }
    let r := CSVParser.andThen (parser.feed buffers) CSVParser.finish
    do
      let tableParser ← r.2.fields.foldlM (onField stod attributes header) (.start attributes)
      if r.1 = .ok then k tableParser else .error (.runtimeError "CSV parse error")) =
      loadFile stod attributes header buffers >>= k := by
  have hout := CSVParser.outcome_recordsOf hne
  dsimp only
  generalize CSVParser.andThen (CSVParser.feed { escape := backslash } buffers)
    CSVParser.finish = r at hout ⊢
  have haccept : ∀ x : Except Fault TableParser,
      (x >>= fun parser => if r.1 = .ok then k parser
        else .error (.runtimeError "CSV parse error")) =
      (x >>= accept (r.1 = .ok)) >>= k := by
    intro x
    cases x with
    | error e => rfl
    | ok parser =>
      rw [ok_bind, ok_bind, accept]
      by_cases hr : r.1 = .ok
      · simp [hr]
      · simp only [hr, if_false, decide_false, Bool.false_eq_true]
        rfl
  have hfields : r.2.fields = (CSVParser.outcome r).1 := rfl
  have hok : decide (r.1 = .ok) = (CSVParser.outcome r).2 := rfl
  rw [haccept, hfields, hok, hout]
  congr 1
  unfold loadFile
  by_cases hb : buffers = []
  · rw [if_pos hb, if_pos hb]
    simp only [List.foldlM_cons, List.foldlM_nil, bind_pure]
    cases onField stod attributes header (.start attributes) ⟨0, 0, []⟩ <;> rfl
  · rw [if_neg hb, if_neg hb]
    rfl

theorem fromCsv_eq {buffers : List (List UInt8)} (hne : ∀ b ∈ buffers, b ≠ []) :
    fromCsv n sched fresh retRows stod attributes header buffers =
      loadFile stod attributes header buffers >>= fun parser =>
        convert n sched fresh retRows parser.fullTable :=
  parse_eq stod attributes header _ hne

variable {attributes} {table : InnerTable}

theorem kept_nil (fresh : Nat → Page) (type : DataType) : Kept fresh type [] := by
  cases type with
  | int32 => trivial
  | int64 => exact fun before value after h => by simp at h
  | fp64 => exact fun before value after h => by simp at h
  | varchar => trivial

include hn in
/-- Without records. -/
theorem loads_nil_iff (h : table.Holds attributes []) :
    LoadsOrThrows stod attributes [] (convert n sched fresh retRows table) ↔
      (attributes = [] → retRows = 0) := by
  rw [convert_ok h fresh hn sched retRows]
  constructor
  · rintro (⟨what, hthrow⟩ | ⟨table', hok, hloaded⟩)
    · cases hthrow
    · cases hok
      intro hattributes
      simpa [hattributes] using hloaded.numRows
  · intro hzero
    have hrows : (if attributes = [] then retRows else ([] : List (List Data)).length) = 0 := by
      split
      · next hattributes => exact hzero hattributes
      · rfl
    refine .inr ⟨_, rfl, by simp, hrows, [], rfl, ?_⟩
    rw [hrows]
    exact (fromColumnar_pagesOf fresh (t := ⟨[], attributes⟩) (by simp [Table.WellTyped])).mpr
      fun i type _ => kept_nil (fresh i) type

theorem wellTyped_of_mapM {records : List (List (List UInt8))} {rows : List (List Data)}
    (hwidth : ∀ record ∈ records, record.length = attributes.length)
    (hrows : records.mapM (readFields stod attributes) = .ok rows) :
    (⟨rows, attributes⟩ : Table).WellTyped := by
  intro row hrow
  have hall := mapM_eq_ok_iff.mp hrows
  obtain ⟨i, hi, rfl⟩ := List.mem_iff_getElem.mp hrow
  have hi' : i < records.length := by rwa [hall.length_eq]
  exact readFields_hasType (hwidth _ (List.getElem_mem hi')) (hall.get hi' hi)

include hn in
/-- With records. -/
theorem loads_iff {records : List (List (List UInt8))} {rows : List (List Data)}
    (h : table.Holds attributes rows) (hpos : 0 < attributes.length)
    (hwidth : ∀ record ∈ records, record.length = attributes.length)
    (hrows : records.mapM (readFields stod attributes) = .ok rows) :
    LoadsOrThrows stod attributes records (convert n sched fresh retRows table) ↔
      KeepsValues fresh stod attributes records := by
  have hne : attributes ≠ [] := List.length_pos_iff.mp hpos
  have hback := fromColumnar_pagesOf fresh (wellTyped_of_mapM stod hwidth hrows)
  rw [convert_ok h fresh hn sched retRows, if_neg hne]
  constructor
  · rintro (⟨what, hthrow⟩ | ⟨table', hok, hloaded⟩)
    · cases hthrow
    · cases hok
      intro rows' hrows'
      obtain rfl : rows = rows' := Except.ok.inj (hrows.symm.trans hrows')
      obtain ⟨rows', hrows', hread⟩ := hloaded.values
      obtain rfl : rows = rows' := Except.ok.inj (hrows.symm.trans hrows')
      exact hback.mp hread
  · intro hkept
    refine .inr ⟨_, rfl, hwidth, (mapM_eq_ok_iff.mp hrows).length_eq.symm, rows, hrows, ?_⟩
    exact hback.mpr (hkept rows hrows)

/-! ### An empty file -/

variable (attributes) in
/-- The parser makes one record with one empty field. -/
theorem loadFile_nil : ∃ parser, loadFile stod attributes header [] = .ok parser ∧
    parser.fullTable.Holds attributes
      (if header = true ∨ attributes.length ≠ 1 then [] else [[.null]]) := by
  have hstart : (TableParser.start attributes).fullTable.Holds attributes [] := .empty attributes
  have hload : loadFile stod attributes header [] =
      onField stod attributes header (.start attributes) ⟨0, 0, []⟩ := if_pos rfl
  rw [hload]
  by_cases hheader : header = true
  · rw [if_pos (.inl hheader), hheader]
    exact ⟨_, rfl, hstart⟩
  · rw [onField_data (by simp [hheader])]
    by_cases hone : attributes.length = 1
    · have hlen : [Data.null].length = attributes.length := hone.symm
      obtain ⟨table, hadd, htable⟩ := hstart.addRecord hlen
      rw [if_neg (by simp [hheader, hone])]
      refine ⟨{ fullTable := table }, ?_, htable⟩
      have hvalue : fieldValue stod attributes ⟨0, 0, []⟩ = .ok .null := rfl
      have hlast : (TableParser.start attributes).lastRecord ++ [.null] = [.null] := rfl
      rw [hvalue, ok_bind, if_pos (by omega), hlast, hadd, ok_bind]
    · rw [if_pos (.inr hone)]
      have hvalue : fieldValue stod attributes ⟨0, 0, []⟩ = .ok .null := rfl
      rw [hvalue, ok_bind, if_neg (by omega)]
      exact ⟨_, rfl, hstart⟩

include hn in
theorem fromCsv_nil_iff :
    LoadsOrThrows stod attributes (dataRecords header [])
      (fromCsv n sched fresh retRows stod attributes header []) ↔
        Loadable fresh retRows stod attributes header [] := by
  have hrecords : dataRecords header [] = [] := List.drop_nil
  obtain ⟨parser, hload, hholds⟩ := loadFile_nil stod attributes header
  have hloadable : Loadable fresh retRows stod attributes header [] ↔
      (attributes = [] → retRows = 0) ∧ (header = true ∨ attributes.length ≠ 1) := by
    unfold Loadable
    rw [hrecords]
    simp [Rejected, recordsOf, readRecords]
  rw [fromCsv_eq sched fresh retRows stod attributes header (by simp), hload, ok_bind, hrecords,
    hloadable]
  by_cases hcond : header = true ∨ attributes.length ≠ 1
  · rw [if_pos hcond] at hholds
    rw [loads_nil_iff hn sched fresh retRows stod hholds]
    exact (and_iff_left hcond).symm
  · rw [if_neg hcond] at hholds
    refine iff_of_false ?_ fun h' => hcond h'.2
    rw [convert_ok hholds fresh hn sched retRows]
    rintro (⟨what, hthrow⟩ | ⟨table, hok, hloaded⟩)
    · cases hthrow
    · cases hok
      have hne : attributes ≠ [] := by
        rintro rfl
        exact hcond (.inr (by simp))
      simpa [hne] using hloaded.numRows

/-! ### A file with records -/

theorem recordsOf_ne_nil {content : List UInt8} (h : content ≠ []) : (recordsOf content).1 ≠ [] :=
  readRecords_ne_nil (.inr h) _ _ _

section Records

variable {records : List (List (List UInt8))} {w row : Nat} {closed : Bool}

include hn

/-- Records of which each has one field per attribute. -/
theorem loads_full_iff (hdata : ¬ (header = true ∧ row = 0))
    (hfields : ∀ record ∈ records, record ≠ []) (hsome : records ≠ [])
    (hwidth : ∀ record ∈ records, record.length = attributes.length) :
    LoadsOrThrows stod attributes records
      (runRecords stod attributes header w row closed records (.start attributes) >>= fun parser =>
        convert n sched fresh retRows parser.fullTable) ↔
      Rejected stod attributes w closed false records ∨
        KeepsValues fresh stod attributes records := by
  have hstart : (TableParser.start attributes).fullTable.Holds attributes [] := .empty attributes
  have hpos : 0 < attributes.length := by
    obtain ⟨record, hr⟩ := List.exists_mem_of_ne_nil records hsome
    rw [← hwidth record hr]
    exact List.length_pos_iff.mpr (hfields record hr)
  rcases runRecords_cases stod w closed hdata hfields (.inr hsome) hstart with
    ⟨hrejected, what, hthrow⟩ | ⟨hrejected, hreturns⟩
  · rw [hthrow]
    exact iff_of_true (.inl ⟨what, rfl⟩) (.inl hrejected)
  · rcases runRecords_full stod w closed hdata hwidth hpos hstart rfl with
      ⟨what, hthrow⟩ | ⟨parser, rows, hok, hrows, hholds⟩
    · rcases hreturns with hfault | ⟨parser, rows, hok, -⟩
      · cases hfault.symm.trans hthrow
      · cases hok.symm.trans hthrow
    · rw [hok, ok_bind, loads_iff hn sched fresh retRows stod hholds hpos hwidth hrows]
      exact (or_iff_right hrejected).symm

/-- Records of which one has more or fewer fields. -/
theorem loads_ragged_iff (hdata : ¬ (header = true ∧ row = 0))
    (hfields : ∀ record ∈ records, record ≠ []) (hsome : records ≠ [])
    (hwidth : ¬ ∀ record ∈ records, record.length = attributes.length) :
    LoadsOrThrows stod attributes records
      (runRecords stod attributes header w row closed records (.start attributes) >>= fun parser =>
        convert n sched fresh retRows parser.fullTable) ↔
      Rejected stod attributes w closed false records := by
  have hstart : (TableParser.start attributes).fullTable.Holds attributes [] := .empty attributes
  rcases runRecords_cases stod w closed hdata hfields (.inr hsome) hstart with
    ⟨hrejected, what, hthrow⟩ | ⟨hrejected, hfault | ⟨parser, rows, hok, hholds⟩⟩
  · rw [hthrow]
    exact iff_of_true (.inl ⟨what, rfl⟩) hrejected
  · rw [hfault]
    refine iff_of_false ?_ hrejected
    rintro (⟨what, hthrow⟩ | ⟨table, hok, -⟩)
    · cases hthrow
    · cases hok
  · rw [hok, ok_bind, convert_ok hholds fresh hn sched retRows]
    refine iff_of_false ?_ hrejected
    rintro (⟨what, hthrow⟩ | ⟨table, hok', hloaded⟩)
    · cases hthrow
    · exact hwidth hloaded.width

end Records

include hn in
theorem fromCsv_cons_iff {buffers : List (List UInt8)} (hne : ∀ b ∈ buffers, b ≠ [])
    (hsome : buffers ≠ []) :
    LoadsOrThrows stod attributes (dataRecords header buffers.flatten)
      (fromCsv n sched fresh retRows stod attributes header buffers) ↔
        Loadable fresh retRows stod attributes header buffers.flatten := by
  have hcontent : buffers.flatten ≠ [] := by
    obtain ⟨b, bs, rfl⟩ := List.exists_cons_of_ne_nil hsome
    have hb := hne b (by simp)
    simp [hb]
  have hstart : (TableParser.start attributes).fullTable.Holds attributes [] := .empty attributes
  obtain ⟨row, hdata, hrun⟩ := runRecords_below stod header (recordsOf buffers.flatten).2
    (.start attributes) (recordsOf_ne_nil hcontent) rfl
  have hload : loadFile stod attributes header buffers = _ := (if_neg hsome).trans hrun
  have hfields : ∀ record ∈ dataRecords header buffers.flatten, record ≠ [] := fun record hr =>
    ne_nil_of_mem_readRecords false false [] [] _ record (List.mem_of_mem_drop hr)
  rw [fromCsv_eq sched fresh retRows stod attributes header hne, hload, ← dataRecords]
  unfold Loadable
  generalize dataRecords header buffers.flatten = records at hfields ⊢
  generalize (recordsOf buffers.flatten).2 = closed
  generalize ((recordsOf buffers.flatten).1.headD []).length = w
  by_cases hnil : records = []
  · subst hnil
    cases closed with
    | false =>
      rw [if_neg (by simp)]
      exact iff_of_true (.inl ⟨_, rfl⟩) (.inl rfl)
    | true =>
      rw [if_pos (.inl rfl)]
      have hok : runRecords stod attributes header w row true [] (.start attributes) =
          .ok (.start attributes) := rfl
      rw [hok, ok_bind, loads_nil_iff hn sched fresh retRows stod hstart]
      simp [Rejected, hcontent]
  · rw [if_pos (.inr hnil)]
    by_cases hwidth : ∀ record ∈ records, record.length = attributes.length
    · rw [loads_full_iff hn sched fresh retRows stod header hdata hfields hnil hwidth]
      refine or_congr_right ⟨fun hkept => .inr ⟨hnil, hwidth, hkept⟩, ?_⟩
      rintro (⟨hnil', -⟩ | ⟨-, -, hkept⟩)
      · exact absurd hnil' hnil
      · exact hkept
    · rw [loads_ragged_iff hn sched fresh retRows stod header hdata hfields hnil hwidth]
      simp only [hnil, hwidth, false_and, and_false, or_false]

end File

/-- `from_csv` throws or loads one row per record if and only if the file is loadable. -/
theorem fromCsv_iff {n : Nat} (hn : 0 < n) (sched : List Nat) (fresh : Nat → Nat → Page)
    (retRows : Nat) (stod : Stod) (attributes : List DataType) (header : Bool)
    {buffers : List (List UInt8)} (hne : ∀ b ∈ buffers, b ≠ []) :
    LoadsOrThrows stod attributes (dataRecords header buffers.flatten)
      (fromCsv n sched fresh retRows stod attributes header buffers) ↔
        Loadable fresh retRows stod attributes header buffers.flatten := by
  by_cases hsome : buffers = []
  · rw [hsome]
    exact fromCsv_nil_iff hn sched fresh retRows stod header
  · exact fromCsv_cons_iff hn sched fresh retRows stod header hne hsome

/-- The lines `7,a` and `,b`, read in three pieces of which the first ends inside a record. -/
theorem fromCsv_iff_twoLines :
    LoadsOrThrows (fun _ => none) [.int32, .varchar]
      (dataRecords false [55, 44, 97, 10, 44, 98, 10])
      (fromCsv 2 [1] (fun _ _ => Buf.zero 8192) 0 (fun _ => none) [.int32, .varchar] false
        [[55, 44], [97, 10, 44], [98, 10]]) := by
  have hrecords : recordsOf [55, 44, 97, 10, 44, 98, 10] =
      ([[[55], [97]], [[], [98]]], true) := by decide
  have hdata : dataRecords false [55, 44, 97, 10, 44, 98, 10] = [[[55], [97]], [[], [98]]] := by
    rw [dataRecords, hrecords]
    rfl
  have hloadable : Loadable (fun _ _ => Buf.zero 8192) 0 (fun _ => none) [.int32, .varchar] false
      [55, 44, 97, 10, 44, 98, 10] := by
    rw [Loadable, hdata]
    refine .inr (.inr ⟨by simp, by simp, fun rows _ i type htype => ?_⟩)
    rcases List.mem_pair.mp (List.mem_of_getElem? htype) with rfl | rfl <;> trivial
  exact (fromCsv_iff (by decide) [1] (fun _ _ => Buf.zero 8192) 0 (fun _ => none)
    [.int32, .varchar] false (by simp)).mpr hloadable

/-- The file `1\n` for two columns: its record is dropped, and the table has no rows. -/
theorem not_loadsOrThrows_short : ¬ LoadsOrThrows (fun _ => none) [.int32, .int32]
    (dataRecords false [49, 10]) (fromCsv 2 [] (fun _ _ => Buf.zero 8192) 0 (fun _ => none)
      [.int32, .int32] false [[49, 10]]) := by
  have hrecords : recordsOf [49, 10] = ([[[49]]], true) := by decide
  have hdata : dataRecords false [49, 10] = [[[49]]] := by rw [dataRecords, hrecords]; rfl
  have hcomplete : Complete 1 true [[49]] [] := by decide
  have hread : Readable (fun _ => none) [.int32, .int32] [[49]] := ⟨[.int32 1], by decide⟩
  intro h
  have hloadable := (fromCsv_cons_iff (by decide) [] (fun _ _ => Buf.zero 8192) 0 (fun _ => none)
    false (by simp) (by simp)).mp h
  change Loadable _ _ _ _ _ [49, 10] at hloadable
  rw [Loadable, hdata, hrecords] at hloadable
  rcases hloadable with hrejected | ⟨hnil, -⟩ | ⟨-, hwidth, -⟩
  · rcases hrejected with hunread | ⟨-, hrest⟩
    · exact hunread hread
    · cases hrest hcomplete
  · cases hnil
  · simp at hwidth

end HashJoin
