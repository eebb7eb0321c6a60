import HashJoin.PageFormat

/-!
# Reading a columnar table

`Table::from_columnar`, and what a page must hold for it to be read back as a given list of rows.
-/

namespace HashJoin

open Bytes

/-! ## The reader -/

/-- The place of `from_columnar` in one column of the result. -/
structure ReadState where
  rowIdx : Nat
  cells : List Data

namespace ReadState

/-- `results[row_idx++][column_idx].emplace(value)`, after its check. -/
def emplace (st : ReadState) (value : Data) : Except Fault ReadState :=
  if st.rowIdx ≥ st.cells.length then .error (.runtimeError "row_idx")
  else .ok ⟨st.rowIdx + 1, st.cells.set st.rowIdx value⟩

/-- A NULL row: `++row_idx`. -/
def skip (st : ReadState) : ReadState := ⟨st.rowIdx + 1, st.cells⟩

end ReadState

/-- The loop over the rows of a page: `remaining` rows from row `i` on, of which the next
non-NULL one has the index `dataIdx`. `value` reads it and moves the state `σ` on. -/
def readRows {σ : Type} (value : σ → Nat → Except Fault (Data × σ)) (bit : Nat → Bool) :
    (remaining i dataIdx : Nat) → σ → ReadState → Except Fault ReadState
  | 0, _, _, _, st => .ok st
  | remaining + 1, i, dataIdx, s, st =>
    if bit i then do
      let (v, s) ← value s dataIdx
      let st ← st.emplace v
      readRows value bit remaining (i + 1) (dataIdx + 1) s st
    else readRows value bit remaining (i + 1) dataIdx s st.skip

/-- A page of a column of fixed-width values, which start at `dataBegin`. -/
def readFixed {T : Type} [Pod T] (dataBegin : Nat) (mk : T → Data) (p : Page) (st : ReadState) :
    Except Fault ReadState :=
  let numRows := p.u16 0
  readRows (fun (_ : Unit) dataIdx => do
      let v ← Page.readAt T p (dataBegin + Pod.size T * dataIdx)
      .ok (mk v, ()))
    (getBitmap (Page.bitmap p numRows)) numRows 0 0 () st

/-- The string that ends at `offset_begin[data_idx]`; the state is `string_begin`. -/
def readString (p : Page) (dataBegin stringBegin dataIdx : Nat) : Except Fault (Data × Nat) := do
  let offset ← Page.readAt UInt16 p (4 + 2 * dataIdx)
  if offset.toNat < stringBegin ∨ 8192 < dataBegin + offset.toNat then .error .outOfRange
  else .ok (.varchar (p.slice (dataBegin + stringBegin) (offset.toNat - stringBegin)), offset.toNat)

/-- The `num_chars` bytes of a page of a long string. -/
def readLong (p : Page) : Except Fault (List UInt8) :=
  if 4 + p.u16 2 ≤ 8192 then .ok (p.slice 4 (p.u16 2)) else .error .outOfRange

def readVarchar (p : Page) (st : ReadState) : Except Fault ReadState :=
  let numRows := p.u16 0
  if numRows = 0xffff then do
    let value ← readLong p
    st.emplace (.varchar value)
  else if numRows = 0xfffe then do
    let value ← readLong p
    match st.rowIdx with
    | 0 => .error .outOfRange
    | rowIdx + 1 =>
      match st.cells[rowIdx]? with
      | some (.varchar s) => .ok { st with cells := st.cells.set rowIdx (.varchar (s ++ value)) }
      | some _ => .error (.runtimeError "long string page 0xfffe must follows a string")
      | none => .error .outOfRange
  else
    let numNonNull := p.u16 2
    readRows (readString p (4 + numNonNull * 2)) (getBitmap (Page.bitmap p numRows))
      numRows 0 0 0 st

def readPage : DataType → Page → ReadState → Except Fault ReadState
  | .int32 => readFixed 4 Data.int32
  | .int64 => readFixed 8 Data.int64
  | .fp64 => readFixed 8 Data.fp64
  | .varchar => readVarchar

/-- The values of one column of a table of `numRows` rows. -/
def readColumn (numRows : Nat) (column : Column) : Except Fault (List Data) := do
  let st ← column.pages.foldlM (fun st p => readPage column.type p st)
    ⟨0, List.replicate numRows .null⟩
  .ok st.cells

def fromColumnar (table : ColumnarTable) : Except Fault Table := do
  let columns ← table.columns.mapM (readColumn table.numRows)
  .ok {
    data := (List.range table.numRows).map fun i => columns.map fun c => c.getD i .null
    types := table.columns.map Column.type }

/-! ## Reading a page -/

/-- `done` read, and room for `m` more rows. -/
def ReadState.at (done : List Data) (m : Nat) : ReadState :=
  ⟨done.length, done ++ List.replicate m .null⟩

theorem ReadState.emplace_at (done : List Data) (m : Nat) (v : Data) :
    (ReadState.at done (m + 1)).emplace v = .ok (.at (done ++ [v]) m) := by
  have hlt : ¬ done.length ≥ (done ++ List.replicate (m + 1) Data.null).length := by simp
  unfold emplace
  rw [ReadState.at, if_neg hlt]
  simp [ReadState.at, List.replicate_succ]

theorem ReadState.skip_at (done : List Data) (m : Nat) :
    (ReadState.at done (m + 1)).skip = .at (done ++ [.null]) m := by
  simp [skip, ReadState.at, List.replicate_succ]

/-- The row loop reads `rows`, if the bitmap says which are NULL and `value` yields the others. -/
theorem readRows_at {α σ : Type} {value : σ → Nat → Except Fault (Data × σ)} {bit : Nat → Bool}
    {mk : α → Data} (states : Nat → σ) (rows : List (Option α)) (i d : Nat) (done : List Data)
    (m : Nat) (hbit : ∀ k (h : k < rows.length), bit (i + k) = rows[k].isSome)
    (hval : ∀ k (h : k < rows.reduceOption.length),
      value (states (d + k)) (d + k) = .ok (mk rows.reduceOption[k], states (d + k + 1))) :
    readRows value bit rows.length i d (states d) (.at done (rows.length + m)) =
      .ok (.at (done ++ rows.map (cellOf mk)) m) := by
  induction rows generalizing i d done with
  | nil => simp [readRows]
  | cons row rows ih =>
    have hbit0 := hbit 0 (by simp)
    have hbit' : ∀ k (h : k < rows.length), bit (i + 1 + k) = rows[k].isSome := fun k h => by
      have := hbit (k + 1) (by simpa using h)
      rwa [show i + (k + 1) = i + 1 + k by omega] at this
    rw [List.length_cons, readRows, Nat.add_right_comm]
    cases row with
    | none =>
      have hnext := ih (i + 1) d (done ++ [.null]) hbit' hval
      rw [if_neg (by simpa using hbit0), ReadState.skip_at, hnext]
      simp [cellOf]
    | some v =>
      have hv := hval 0 (by rw [List.reduceOption_cons_of_some]; simp)
      have hval' : ∀ k (h : k < rows.reduceOption.length),
          value (states (d + 1 + k)) (d + 1 + k) =
            .ok (mk rows.reduceOption[k], states (d + 1 + k + 1)) := fun k h => by
        have := hval (k + 1) (by rw [List.reduceOption_cons_of_some]; simpa using h)
        rwa [show d + (k + 1) = d + 1 + k by omega] at this
      have hnext := ih (i + 1) (d + 1) (done ++ [mk v]) hbit' hval'
      rw [Nat.add_zero] at hv
      rw [if_pos (by simpa using hbit0), hv, ok_bind]
      simp only [ReadState.emplace_at, ok_bind]
      apply hnext.trans
      rw [List.map_cons, List.append_assoc]
      rfl

theorem readFixed_at {T : Type} [Pod T] {dataBegin : Nat} {rows : List (Option T)} {p : Page}
    (h : FixedRead dataBegin rows p) (mk : T → Data) (done : List Data) (m : Nat) :
    readFixed dataBegin mk p (.at done (rows.length + m)) =
      .ok (.at (done ++ rows.map (cellOf mk)) m) := by
  simp only [readFixed, h.numRows]
  refine readRows_at (fun _ => ()) rows 0 0 done m (fun k hk => ?_) (fun k hk => ?_)
  · rw [Nat.zero_add]
    exact h.bits k hk
  · have hfit : dataBegin + Pod.size T * k + Pod.size T ≤ 8192 := by
      have hmul : Pod.size T * (k + 1) ≤ Pod.size T * rows.reduceOption.length :=
        Nat.mul_le_mul_left _ hk
      have := h.inside
      rw [Nat.mul_succ] at hmul
      omega
    simp only [Nat.zero_add, Page.readAt, if_pos hfit, h.values k hk]
    rfl

/-- The bytes of all strings, split around the `k`-th. -/
theorem flatten_eq_around (strings : List (List UInt8)) {k : Nat} (hk : k < strings.length) :
    strings.flatten =
      (strings.take k).flatten ++ (strings[k] ++ (strings.drop (k + 1)).flatten) := by
  rw [← List.flatten_cons, ← List.flatten_append, List.cons_getElem_drop_succ,
    List.take_append_drop]

theorem length_flatten_take_succ (strings : List (List UInt8)) {k : Nat}
    (hk : k < strings.length) : (strings.take (k + 1)).flatten.length =
      (strings.take k).flatten.length + strings[k].length := by
  rw [List.take_succ_eq_append_getElem hk, List.flatten_append, List.length_append]
  simp

/-- The bytes at `k`-th string's place among the bytes of all strings. -/
theorem slice_string {strings : List (List UInt8)} {p : Page} {off k : Nat}
    (hb : p.slice off strings.flatten.length = strings.flatten) (hk : k < strings.length) :
    p.slice (off + (strings.take k).flatten.length) strings[k].length = strings[k] := by
  have hlen := congrArg List.length (flatten_eq_around strings hk)
  rw [List.length_append, List.length_append] at hlen
  rw [hlen, Buf.slice_add, Buf.slice_add, flatten_eq_around strings hk] at hb
  have hrest := (List.append_inj hb (by simp)).2
  exact (List.append_inj hrest (by simp)).1

/-- The `k`-th string of a page, read from the end of the one before it. -/
theorem readString_ok {rows : List (Option (List UInt8))} {p : Page} (h : StringPage rows p)
    {k : Nat} (hk : k < rows.reduceOption.length) :
    readString p (4 + p.u16 2 * 2) ((rows.reduceOption.take k).flatten.length) k =
      .ok (.varchar rows.reduceOption[k], (rows.reduceOption.take (k + 1)).flatten.length) := by
  have hfits := h.fits
  have hread : Page.readAt UInt16 p (4 + 2 * k) = .ok (p.read UInt16 (4 + 2 * k)) :=
    if_pos (by
      have : Pod.size UInt16 = 2 := rfl
      omega)
  have hoff : (p.read UInt16 (4 + 2 * k)).toNat =
      (rows.reduceOption.take k).flatten.length + rows.reduceOption[k].length :=
    (h.offsets k hk).trans (length_flatten_take_succ _ hk)
  have hle : (rows.reduceOption.take k).flatten.length + rows.reduceOption[k].length ≤
      rows.reduceOption.flatten.length := by
    have := congrArg List.length (flatten_eq_around rows.reduceOption hk)
    rw [List.length_append, List.length_append] at this
    omega
  unfold readString
  rw [hread, ok_bind, hoff, h.numNonNull, if_neg (by omega),
    length_flatten_take_succ _ hk, Nat.add_sub_cancel_left, Nat.mul_comm _ 2,
    slice_string h.bytes hk]

theorem readVarchar_short {rows : List (Option (List UInt8))} {p : Page} (h : StringPage rows p)
    (done : List Data) (m : Nat) :
    readVarchar p (.at done (rows.length + m)) =
      .ok (.at (done ++ rows.map (cellOf Data.varchar)) m) := by
  have hlt := h.numRows_lt
  unfold readVarchar
  rw [if_neg (by omega), if_neg (by omega)]
  simp only [h.numRows]
  refine readRows_at (fun d => (rows.reduceOption.take d).flatten.length) rows 0 0 done m
    (fun k hk => ?_) (fun k hk => ?_)
  · rw [Nat.zero_add]
    exact h.bits k hk
  · rw [Nat.zero_add]
    exact readString_ok h hk

theorem readLong_ok {marker : Nat} {chunk : List UInt8} {p : Page} (h : LongPage marker chunk p) :
    readLong p = .ok chunk := by
  unfold readLong
  rw [h.numChars, if_pos h.fits, h.bytes]

/-- A `0xfffe` page adds to the string before it. -/
theorem readVarchar_more {chunk : List UInt8} {p : Page} (h : LongPage 0xfffe chunk p)
    (done : List Data) (s : List UInt8) (m : Nat) :
    readVarchar p (.at (done ++ [.varchar s]) m) =
      .ok (.at (done ++ [.varchar (s ++ chunk)]) m) := by
  simp only [readVarchar, h.marker, readLong_ok h]
  simp [ReadState.at]

theorem readVarchar_rest {chunks : List (List UInt8)} {pages : List Page}
    (h : List.Forall₂ (LongPage 0xfffe) chunks pages) (done : List Data) (s : List UInt8)
    (m : Nat) :
    pages.foldlM (fun st p => readVarchar p st) (ReadState.at (done ++ [.varchar s]) m) =
      .ok (.at (done ++ [.varchar (s ++ chunks.flatten)]) m) := by
  induction h generalizing s with
  | nil =>
    simp
    rfl
  | cons hp _ ih =>
    rw [List.foldlM_cons, readVarchar_more hp, ok_bind, ih, List.flatten_cons, List.append_assoc]

theorem readVarchar_long {s : List UInt8} {pages : List Page} (h : LongPages s pages)
    (done : List Data) (m : Nat) :
    pages.foldlM (fun st p => readVarchar p st) (ReadState.at done (m + 1)) =
      .ok (.at (done ++ [.varchar s]) m) := by
  obtain ⟨c, cs, p, ps, rfl, rfl, hp, hps⟩ := h.split
  have hfirst : readVarchar p (.at done (m + 1)) = .ok (.at (done ++ [.varchar c]) m) := by
    simp only [readVarchar, hp.marker, readLong_ok hp, if_true, ok_bind, ReadState.emplace_at]
  rw [List.foldlM_cons, hfirst, ok_bind, readVarchar_rest hps]

/-! ## Reading a column -/

theorem readFixed_pages {T : Type} [Pod T] {dataBegin : Nat} {chunks : List (List (Option T))}
    {pages : List Page} (h : List.Forall₂ (FixedRead dataBegin) chunks pages) (mk : T → Data)
    (done : List Data) (m : Nat) :
    pages.foldlM (fun st p => readFixed dataBegin mk p st)
        (ReadState.at done (chunks.flatten.length + m)) =
      .ok (.at (done ++ chunks.flatten.map (cellOf mk)) m) := by
  induction h generalizing done with
  | nil =>
    simp
    rfl
  | cons hp _ ih =>
    rw [List.foldlM_cons, List.flatten_cons, List.length_append, Nat.add_assoc, readFixed_at hp,
      ok_bind, ih, List.map_append, List.append_assoc]

theorem readVarchar_pages {segs : List Segment} {pages : List Page} (h : StringPages segs pages)
    (done : List Data) (m : Nat) :
    pages.foldlM (fun st p => readVarchar p st)
        (ReadState.at done ((segs.flatMap Segment.values).length + m)) =
      .ok (.at (done ++ (segs.flatMap Segment.values).map (cellOf Data.varchar)) m) := by
  induction h generalizing done with
  | nil =>
    simp
    rfl
  | @cons seg segs qs ps hq _ ih =>
    have hseg : ∀ k, qs.foldlM (fun st p => readVarchar p st)
        (ReadState.at done (seg.values.length + k)) =
          .ok (.at (done ++ seg.values.map (cellOf Data.varchar)) k) := fun k => by
      cases seg with
      | short rs =>
        obtain ⟨p, rfl, hp⟩ := hq
        rw [List.foldlM_cons, Segment.values, readVarchar_short hp, ok_bind]
        rfl
      | long s =>
        have := readVarchar_long hq.2 done k
        rwa [Nat.add_comm] at this
    rw [List.foldlM_append, List.flatMap_cons, List.length_append, Nat.add_assoc, hseg, ok_bind, ih,
      List.map_append, List.append_assoc]

/-- The pages of a column hold the given values. -/
def ColumnHolds : Column → List Data → Prop
  | ⟨.int32, pages⟩, values => ∃ chunks : List (List (Option Int32)),
    values = chunks.flatten.map (cellOf Data.int32) ∧ List.Forall₂ (FixedPage 4) chunks pages
  | ⟨.int64, pages⟩, values => ∃ chunks : List (List (Option Int64)),
    values = chunks.flatten.map (cellOf Data.int64) ∧ List.Forall₂ (FixedPage 8) chunks pages
  | ⟨.fp64, pages⟩, values => ∃ chunks : List (List (Option UInt64)),
    values = chunks.flatten.map (cellOf Data.fp64) ∧ List.Forall₂ (FixedPage 8) chunks pages
  | ⟨.varchar, pages⟩, values => ∃ segs : List Segment,
    values = (segs.flatMap Segment.values).map (cellOf Data.varchar) ∧ StringPages segs pages

theorem readColumn_fixed {T : Type} [Pod T] {type : DataType} {dataBegin : Nat} {mk : T → Data}
    (htype : readPage type = readFixed dataBegin mk) {chunks : List (List (Option T))}
    {pages : List Page} (h : List.Forall₂ (FixedRead dataBegin) chunks pages) :
    readColumn chunks.flatten.length ⟨type, pages⟩ = .ok (chunks.flatten.map (cellOf mk)) := by
  have hread := readFixed_pages h mk [] 0
  have hstart : (⟨0, List.replicate chunks.flatten.length .null⟩ : ReadState) =
    .at [] chunks.flatten.length := rfl
  unfold readColumn
  rw [hstart]
  simp only [htype]
  rw [← Nat.add_zero chunks.flatten.length, hread, ok_bind]
  simp [ReadState.at]

theorem readColumn_holds {c : Column} {values : List Data} (h : ColumnHolds c values) :
    readColumn values.length c = .ok values := by
  obtain ⟨type, pages⟩ := c
  cases type with
  | int32 =>
    obtain ⟨chunks, rfl, hp⟩ := h
    rw [List.length_map]
    exact readColumn_fixed rfl (hp.imp fun _ _ => FixedPage.read)
  | int64 =>
    obtain ⟨chunks, rfl, hp⟩ := h
    rw [List.length_map]
    exact readColumn_fixed rfl (hp.imp fun _ _ => FixedPage.read)
  | fp64 =>
    obtain ⟨chunks, rfl, hp⟩ := h
    rw [List.length_map]
    exact readColumn_fixed rfl (hp.imp fun _ _ => FixedPage.read)
  | varchar =>
    obtain ⟨segs, rfl, hp⟩ := h
    have hread := readVarchar_pages hp [] 0
    have hstart : (⟨0, List.replicate (segs.flatMap Segment.values).length .null⟩ : ReadState) =
      .at [] (segs.flatMap Segment.values).length := rfl
    simp only [readColumn, readPage, List.length_map, hstart]
    rw [← Nat.add_zero (segs.flatMap Segment.values).length, hread, ok_bind]
    simp [ReadState.at]

/-- A table of one column. -/
theorem fromColumnar_column {c : Column} {values : List Data}
    (h : readColumn values.length c = .ok values) :
    fromColumnar { numRows := values.length, columns := [c] } =
      .ok ⟨values.map fun v => [v], [c.type]⟩ := by
  have hrows : ((List.range values.length).map fun i => [values.getD i .null]) =
      values.map fun v => [v] :=
    List.ext_getElem (by simp) fun i hi hi' => by simp at hi'; simp [hi']
  have hcolumns : [c].mapM (readColumn values.length) = .ok [values] := by
    rw [List.mapM_cons, h]
    rfl
  unfold fromColumnar
  simp only [hcolumns, ok_bind, List.map_cons, List.map_nil, hrows]

theorem fromColumnar_single {c : Column} {values : List Data} (h : ColumnHolds c values) :
    fromColumnar { numRows := values.length, columns := [c] } =
      .ok ⟨values.map fun v => [v], [c.type]⟩ :=
  fromColumnar_column (readColumn_holds h)

end HashJoin
