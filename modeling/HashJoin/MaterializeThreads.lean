import HashJoin.ExecuteProof
import HashJoin.StringDeref

/-!
# Materialising with any number of threads

What the table of a result decodes to, for columns of both types the executor knows. The slices of
a column are cut by row, so the pages put one after another hold its rows in order, and how many
slices there are shows nowhere in the decoded table.
-/

namespace HashJoin

open Bytes Chunks

/-! ## The cell of a value -/

/-- What is decoded for a value in a column of the given type. -/
def materializedCell (inputs : List ColumnarTable) (type : DataType) (v : Value) :
    Except Fault Data :=
  match type with
  | .varchar => do
    let call ← stringCall inputs v
    .ok (cellOf Data.varchar call)
  | _ => .ok (if v.isNull then .null else .int32 v.val)

theorem cellOf_int32Call (v : Value) :
    cellOf Data.int32 (int32Call v) = if v.isNull then .null else .int32 v.val := by
  unfold int32Call
  split <;> rfl

/-- An `int32_wrapper` is decoded to the cell that it stands for. -/
theorem cell_of_materializedCell {inputs : List ColumnarTable} {v : Value} {cell : Data}
    (h : materializedCell inputs .int32 v = .ok cell) (hv : v.IsInt32) : cell = v.cell := by
  rw [← Value.cell_int32Call hv, cellOf_int32Call]
  exact (Except.ok.inj h).symm

/-- The cells of all rows of a column. -/
def HasCells (inputs : List ColumnarTable) (type : DataType) (col : ColumnT) (cells : List Data) :
    Prop :=
  List.Forall₂ (fun v cell => materializedCell inputs type v = .ok cell) col.values cells

theorem HasCells.length {inputs : List ColumnarTable} {type : DataType} {col : ColumnT}
    {cells : List Data} (h : HasCells inputs type col cells) (hcol : col.Valid) :
    cells.length = col.numRows := by
  rw [hcol.numRows]
  exact h.length_eq.symm

theorem HasCells.int32 {inputs : List ColumnarTable} {col : ColumnT} {cells : List Data}
    (h : HasCells inputs .int32 col cells) :
    cells = (col.values.map int32Call).map (cellOf Data.int32) := by
  have heq := List.forall₂_map_left_iff.mpr
    (h.imp fun v cell (hv : materializedCell inputs .int32 v = .ok cell) => Except.ok.inj hv)
  rw [List.forall₂_eq_eq_eq] at heq
  rw [← heq, List.map_map]
  exact List.map_congr_left fun v _ => (cellOf_int32Call v).symm

theorem HasCells.varchar {inputs : List ColumnarTable} {col : ColumnT} {cells : List Data}
    (h : HasCells inputs .varchar col cells) :
    ∃ calls, List.Forall₂ (fun v call => stringCall inputs v = .ok call) col.values calls ∧
      cells = calls.map (cellOf Data.varchar) := by
  unfold HasCells at h
  generalize col.values = values at h
  induction h with
  | nil => exact ⟨[], .nil, rfl⟩
  | cons hv _ ih =>
    obtain ⟨call, hcall, hcell⟩ := bind_eq_ok.mp hv
    obtain ⟨calls, hcalls, rfl⟩ := ih
    refine ⟨call :: calls, .cons hcall hcalls, ?_⟩
    rw [List.map_cons, Except.ok.inj hcell]

/-! ## One column -/

/-- The pages of the slices of a string column hold its rows. A page that is not full or a chain of
long pages may end a slice. -/
theorem stringSlices_ok (fresh : Nat → Nat → Page) (k : Nat) (calls : List (Option (List UInt8)))
    (threads : List Nat) : ∃ segs,
      (threads.map (slice k calls)).flatten = segs.flatMap Segment.values ∧
        StringPages segs
          (threads.map fun t => StringInserter.write (fresh t) (slice k calls t)).flatten := by
  induction threads with
  | nil => exact ⟨[], rfl, .nil⟩
  | cons t threads ih =>
    obtain ⟨segs, hcalls, hpages, -⟩ := StringInserter.write_ok (fresh t) (slice k calls t)
    obtain ⟨rest, hrest, hpages'⟩ := ih
    refine ⟨segs ++ rest, ?_, ?_⟩
    · rw [List.map_cons, List.flatten_cons, hrest, List.flatMap_append, ← hcalls]
    · rw [List.map_cons, List.flatten_cons]
      exact hpages.append hpages'

theorem materializeColumn_varchar {inputs : List ColumnarTable} {col : ColumnT}
    (hcol : col.Valid) {calls : List (Option (List UInt8))}
    (hcalls : List.Forall₂ (fun v call => stringCall inputs v = .ok call) col.values calls)
    (fresh : Nat → Nat → Page) {numThreads : Nat} (hT : 0 < numThreads) :
    ∃ pages, materializeColumn inputs .varchar fresh numThreads col.numRows col =
        .ok ⟨.varchar, pages⟩ ∧
      ColumnHolds ⟨.varchar, pages⟩ (calls.map (cellOf Data.varchar)) := by
  have hlen : calls.length = col.numRows := by rw [hcol.numRows, hcalls.length_eq]
  by_cases hzero : col.numRows = 0
  · have hnil : calls = [] := List.length_eq_zero_iff.mp (hlen.trans hzero)
    unfold materializeColumn
    rw [if_pos hzero, hnil, hzero]
    obtain ⟨segs, hsegs, hpages, -⟩ := StringInserter.write_ok (fresh 0) []
    exact ⟨_, rfl, segs, by rw [← hsegs], hpages⟩
  · have hslices : ∀ t, materializeSlice inputs .varchar (fresh t) col
        (sliceRows col.numRows numThreads t) = .ok (StringInserter.write (fresh t)
          (slice (rowsPerThread col.numRows numThreads) calls t)) := by
      intro t
      have hslice := mapM_eq_ok_iff.mpr (List.forall₂_take (rowsPerThread col.numRows numThreads)
        (List.forall₂_drop (t * rowsPerThread col.numRows numThreads) hcalls))
      unfold materializeSlice
      rw [sliceRows_eq, hcol.reads.slice, ok_bind]
      show (List.mapM (stringCall inputs) _ >>= _) = _
      rw [slice, hslice, ok_bind]
      rfl
    obtain ⟨segs, hsegs, hpages⟩ := stringSlices_ok fresh (rowsPerThread col.numRows numThreads)
      calls (List.range numThreads)
    have hcover : col.numRows ≤ numThreads * rowsPerThread col.numRows numThreads :=
      le_mul_rowsPerThread hT
    rw [flatten_slices, List.take_of_length_le (by rw [hlen]; exact hcover)] at hsegs
    unfold materializeColumn
    rw [if_neg hzero, mapM_eq_map fun t _ => hslices t]
    exact ⟨_, rfl, segs, by rw [hsegs], hpages⟩

/-- A column is written, and its pages hold the cells of its rows. -/
theorem materializeColumn_holds {inputs : List ColumnarTable} {type : DataType}
    (htype : type = .int32 ∨ type = .varchar) {col : ColumnT} (hcol : col.Valid)
    {cells : List Data} (hcells : HasCells inputs type col cells) (fresh : Nat → Nat → Page)
    {numThreads : Nat} (hT : 0 < numThreads) :
    ∃ column, materializeColumn inputs type fresh numThreads col.numRows col = .ok column ∧
      column.type = type ∧ ColumnHolds column cells := by
  rcases htype with rfl | rfl
  · obtain ⟨chunks, hchunks, hpages, -⟩ := slicePages_ok fresh
      (rowsPerThread col.numRows numThreads) numThreads (col.values.map int32Call)
    have hcover : col.numRows ≤ numThreads * rowsPerThread col.numRows numThreads :=
      le_mul_rowsPerThread hT
    rw [List.take_of_length_le (by rw [List.length_map, ← hcol.numRows]; exact hcover)] at hchunks
    refine ⟨_, materializeColumn_valid hcol inputs fresh numThreads, rfl, chunks, ?_, hpages.pages⟩
    rw [hcells.int32, hchunks]
  · obtain ⟨calls, hcalls, rfl⟩ := hcells.varchar
    obtain ⟨pages, hwrite, hholds⟩ := materializeColumn_varchar hcol hcalls fresh hT
    exact ⟨_, hwrite, rfl, hholds⟩

/-! ## The table -/

/-- Reading back columns that hold the given cells. -/
theorem fromColumnar_holds {n : Nat} {columns : List Column} {cells : List (List Data)}
    (h : List.Forall₂ (fun c cs => ColumnHolds c cs ∧ cs.length = n) columns cells) :
    fromColumnar { numRows := n, columns := columns } =
      .ok ⟨(List.range n).map fun i => cells.map fun c => c.getD i .null,
        columns.map Column.type⟩ := by
  have hread : columns.mapM (readColumn n) = .ok cells := by
    refine mapM_eq_ok_iff.mpr (h.imp fun c cs hc => ?_)
    have hcells := readColumn_holds hc.1
    rwa [hc.2] at hcells
  unfold fromColumnar
  simp only [hread, ok_bind]

theorem exists_forall₂ {α β : Type} {R : α → β → Prop} {l : List α} (h : ∀ a ∈ l, ∃ b, R a b) :
    ∃ bs, List.Forall₂ R l bs := by
  induction l with
  | nil => exact ⟨[], .nil⟩
  | cons a l ih =>
    obtain ⟨b, hb⟩ := h a (by simp)
    obtain ⟨bs, hbs⟩ := ih fun a' ha => h a' (by simp [ha])
    exact ⟨b :: bs, .cons hb hbs⟩

/-- The values of a column have cells, if the references among them lead to strings. -/
theorem exists_hasCells {inputs : List ColumnarTable} {type : DataType} {col : ColumnT}
    (hcol : col.Valid) (htype : type = .int32 ∨ type = .varchar)
    (hderef : type = .varchar → ∀ r < col.numRows, ∀ v, col.getValue r = .ok v →
      ∃ call, stringCall inputs v = .ok call) : ∃ cells, HasCells inputs type col cells := by
  apply exists_forall₂
  intro v hv
  rcases htype with rfl | rfl
  · exact ⟨_, rfl⟩
  · obtain ⟨r, hr, rfl⟩ := List.mem_iff_getElem.mp hv
    obtain ⟨call, hcall⟩ := hderef rfl r (by rw [hcol.numRows]; exact hr) _ (hcol.getValue hr)
    refine ⟨cellOf Data.varchar call, ?_⟩
    show (stringCall inputs col.values[r] >>= _) = _
    rw [hcall, ok_bind]

/-- Column `x.2` of the result, to be written as a column of type `x.1`, has the cells. -/
def ResultCells (inputs : List ColumnarTable) (results : List ColumnT) (n : Nat)
    (x : DataType × Nat) (cells : List Data) : Prop :=
  ∃ col, results[x.2]? = some col ∧ col.Valid ∧ col.numRows = n ∧
    (x.1 = .int32 ∨ x.1 = .varchar) ∧ HasCells inputs x.1 col cells

theorem ResultCells.cell {inputs : List ColumnarTable} {results : List ColumnT} {n c : Nat}
    {type : DataType} {cells : List Data} (h : ResultCells inputs results n (type, c) cells)
    {col : ColumnT} (hget : results[c]? = some col) {r : Nat} (hr : r < n) :
    ∃ v, col.getValue r = .ok v ∧ materializedCell inputs type v = .ok (cells.getD r .null) := by
  obtain ⟨col', hget', hcol, hrows, -, hcells⟩ := h
  obtain rfl : col' = col := Option.some.inj (hget'.symm.trans hget)
  have hv : r < col'.values.length := by rwa [← hcol.numRows, hrows]
  have hc : r < cells.length := by rwa [hcells.length hcol, hrows]
  refine ⟨col'.values[r], hcol.getValue hv, ?_⟩
  rw [List.getD_eq_getElem?_getD, List.getElem?_eq_getElem hc]
  exact hcells.get hv hc

/-- All columns are written, and hold the cells of the result. -/
theorem materializeColumns_holds {inputs : List ColumnarTable} {results : List ColumnT} {n : Nat}
    {tis : List (DataType × Nat)} {cells : List (List Data)}
    (h : List.Forall₂ (ResultCells inputs results n) tis cells)
    (fresh : Nat → Nat → Nat → Page) {numThreads : Nat} (hT : 0 < numThreads) :
    ∃ columns, tis.mapM (fun x => do
        let col ← at? results x.2
        materializeColumn inputs x.1 (fresh x.2) numThreads n col) = .ok columns ∧
      columns.map Column.type = tis.map Prod.fst ∧
      List.Forall₂ (fun c cs => ColumnHolds c cs ∧ cs.length = n) columns cells := by
  induction h with
  | nil => exact ⟨[], rfl, rfl, .nil⟩
  | @cons x cs tis cells hx _ ih =>
    obtain ⟨col, hget, hcol, hrows, htype, hcells⟩ := hx
    obtain ⟨column, hwrite, hctype, hholds⟩ :=
      materializeColumn_holds htype hcol hcells (fresh x.2) hT
    obtain ⟨columns, hcolumns, htypes, hall⟩ := ih
    rw [hrows] at hwrite
    refine ⟨column :: columns, ?_, ?_, .cons ⟨hholds, (hcells.length hcol).trans hrows⟩ hall⟩
    · rw [List.mapM_cons, at?_eq_ok hget, ok_bind, hwrite, ok_bind, hcolumns]
      rfl
    · rw [List.map_cons, List.map_cons, hctype, htypes]

/-- A result is decoded to the same rows for every number of threads: the cells of the values that
`get_value` finds, in order. Those of an `int32_wrapper` are the number or NULL that it stands
for. -/
theorem materialize_threads {inputs : List ColumnarTable} {results : List ColumnT}
    {types : List DataType} {n : Nat} (hresults : Aligned n results)
    (hlen : results.length = types.length)
    (htypes : ∀ type ∈ types, type = .int32 ∨ type = .varchar)
    (hderef : ∀ (c : Nat) (col : ColumnT), results[c]? = some col → types[c]? = some .varchar →
      ∀ r < n, ∀ v, col.getValue r = .ok v → ∃ call, stringCall inputs v = .ok call) :
    ∃ decoded : Table, decoded.types = types ∧ decoded.data.length = headRows results ∧
      (∀ (r : Nat) (row : List Data), decoded.data[r]? = some row → row.length = types.length ∧
        ∀ (c : Nat) (col : ColumnT) (type : DataType), results[c]? = some col →
          types[c]? = some type → ∃ v cell, col.getValue r = .ok v ∧
            materializedCell inputs type v = .ok cell ∧
            (type = .int32 → v.IsInt32 → cell = v.cell) ∧ row[c]? = some cell) ∧
      ∀ (numThreads : Nat) (fresh : Nat → Nat → Nat → Page), 1 ≤ numThreads →
        ∃ table, materialize inputs results types fresh numThreads = .ok table ∧
          fromColumnar table = .ok decoded := by
  have haligned : Aligned (headRows results) results := by
    cases results with
    | nil => exact fun _ h => absurd h (by simp)
    | cons col results =>
      rw [headRows_eq hresults (by simp)]
      exact hresults
  obtain ⟨cells, hcells⟩ : ∃ cells,
      List.Forall₂ (ResultCells inputs results (headRows results)) types.zipIdx cells := by
    apply exists_forall₂
    intro x hx
    have hc : x.2 < results.length := by
      rw [hlen]
      simpa using List.snd_lt_of_mem_zipIdx hx
    have htype : types[x.2]? = some x.1 := List.mk_mem_zipIdx_iff_getElem?.mp hx
    obtain ⟨hcol, hrows⟩ := hresults results[x.2] (List.getElem_mem hc)
    have hget : results[x.2]? = some results[x.2] := List.getElem?_eq_getElem hc
    have hkind := htypes x.1 (List.mem_of_getElem? htype)
    obtain ⟨cs, hcs⟩ := exists_hasCells hcol hkind fun hv r hr v hval =>
      hderef x.2 results[x.2] hget (by rw [htype, hv]) r (by rwa [← hrows]) v hval
    exact ⟨cs, results[x.2], hget, hcol, (haligned _ (List.getElem_mem hc)).2, hkind, hcs⟩
  have hcount : cells.length = types.length := by
    rw [← hcells.length_eq, List.length_zipIdx]
  refine ⟨⟨(List.range (headRows results)).map fun i => cells.map fun c => c.getD i .null, types⟩,
    rfl, by simp, fun r row hrow => ?_, fun numThreads fresh hT => ?_⟩
  · obtain ⟨hr, rfl⟩ := List.getElem?_eq_some_iff.mp hrow
    refine ⟨by simp [hcount], fun c col type hcol htype => ?_⟩
    have hlt : c < types.length := (List.getElem?_eq_some_iff.mp htype).1
    have hcs : c < cells.length := by omega
    have hcell := hcells.get (by simpa using hlt) hcs
    have htype' : types[c] = type := (List.getElem?_eq_some_iff.mp htype).2
    simp only [List.get_eq_getElem, List.getElem_zipIdx, Nat.zero_add, htype'] at hcell
    obtain ⟨v, hv, hmat⟩ := hcell.cell hcol (by simpa using hr)
    refine ⟨v, _, hv, hmat, ?_, ?_⟩
    · rintro rfl hint
      exact cell_of_materializedCell hmat hint
    · simp [hcs]
  · obtain ⟨columns, hcolumns, hctypes, hall⟩ := materializeColumns_holds hcells fresh hT
    refine ⟨_, by rw [materialize_eq, hcolumns, ok_bind], ?_⟩
    rw [fromColumnar_holds hall, hctypes, List.zipIdx_map_fst]

/-- An `INT32` column with a NULL beside a string and a NULL. -/
def fiveAndA : List ColumnT :=
  [bufferedColumn .int32 [[Value.int32 5, Value.null 7]],
    bufferedColumn .varchar [[Value.str 0 0 0 4, Value.str 0 0 0 0xFFFF]]]

theorem fiveAndA_aligned : Aligned 2 fiveAndA := by
  intro col hcol
  rcases List.mem_pair.mp hcol with rfl | rfl
  · exact ⟨⟨rfl, fun _ => ⟨by simp [bufferedColumn], by simp [bufferedColumn]⟩,
      by simp [bufferedColumn]⟩, rfl⟩
  · exact ⟨⟨rfl, fun _ => ⟨by simp [bufferedColumn], by simp [bufferedColumn]⟩,
      by simp [bufferedColumn]⟩, rfl⟩

theorem materialize_threads_fiveAndA :
    ∃ decoded : Table, decoded.types = [.int32, .varchar] ∧ decoded.data.length = 2 ∧
      ∀ (numThreads : Nat) (fresh : Nat → Nat → Nat → Page), 1 ≤ numThreads →
        ∃ table, materialize [⟨2, [aThenEmpty]⟩] fiveAndA [.int32, .varchar] fresh numThreads =
          .ok table ∧ fromColumnar table = .ok decoded := by
  have hderef : ∀ (c : Nat) (col : ColumnT), fiveAndA[c]? = some col →
      ([.int32, .varchar] : List DataType)[c]? = some .varchar → ∀ r < 2, ∀ v,
        col.getValue r = .ok v → ∃ call, stringCall [⟨2, [aThenEmpty]⟩] v = .ok call := by
    intro c col hcol htype r hr v hv
    have ha : stringCall [⟨2, [aThenEmpty]⟩] (Value.str 0 0 0 4) = .ok (some [97]) := rfl
    have hnull : stringCall [⟨2, [aThenEmpty]⟩] (Value.str 0 0 0 0xFFFF) = .ok none := rfl
    match c, hcol, htype with
    | 1, hcol, _ =>
      obtain rfl : bufferedColumn .varchar [[Value.str 0 0 0 4, Value.str 0 0 0 0xFFFF]] = col :=
        Option.some.inj hcol
      match r, hr, hv with
      | 0, _, hv =>
        obtain rfl : Value.str 0 0 0 4 = v := Except.ok.inj hv
        exact ⟨some [97], ha⟩
      | 1, _, hv =>
        obtain rfl : Value.str 0 0 0 0xFFFF = v := Except.ok.inj hv
        exact ⟨none, hnull⟩
  obtain ⟨decoded, htypes, hrows, -, hall⟩ :=
    materialize_threads fiveAndA_aligned rfl (by simp) hderef
  exact ⟨decoded, htypes, hrows, hall⟩

end HashJoin
