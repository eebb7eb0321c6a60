import HashJoin.ColumnInserterProof
import HashJoin.Materialize

/-!
# Strings by reference

A reference is dereferenced with the string area taken to start at `4 + 2 * num_rows`, while the
writers and `from_columnar` put it at `4 + 2 * num_non_null`. What follows says for which pages the
two agree, and with them the late materialisation of a column and `from_columnar`.
-/

namespace HashJoin

open Bytes Chunks

/-! ## One page -/

/-- The number of string bytes on a page: its last offset. -/
def dataLength (p : Page) : Nat := if p.u16 2 = 0 then 0 else p.u16 (4 + 2 * (p.u16 2 - 1))

/-- The page has no NULL row, or no non-empty string, or the bytes of its strings occur once more
at `4 + 2 * num_rows` (in 16 bits). -/
def BaseAgrees (p : Page) : Prop :=
  p.u16 0 = p.u16 2 ∨ dataLength p = 0 ∨
    ((4 + p.u16 0 * 2) % 65536 + dataLength p ≤ 8192 ∧
      p.slice ((4 + p.u16 0 * 2) % 65536) (dataLength p) =
        p.slice (4 + p.u16 2 * 2) (dataLength p))

theorem stringView_ok {p : Page} {a b : Nat} {s : List UInt8} (hs : s ≠ [])
    (h : stringView p a b = .ok s) : b = a + s.length ∧ b ≤ 8192 ∧ p.slice a s.length = s := by
  unfold stringView at h
  split at h
  · exact absurd (Except.ok.inj h).symm hs
  · split at h
    · cases h
    · next hne hin =>
      have hslice := Except.ok.inj h
      have hlen := congrArg List.length hslice
      rw [Buf.length_slice] at hlen
      rw [hlen] at hslice
      exact ⟨by omega, by omega, hslice⟩

theorem stringView_slice {p : Page} {a : Nat} {s : List UInt8} (hfit : a + s.length ≤ 8192)
    (h : p.slice a s.length = s) : stringView p a (a + s.length) = .ok s := by
  unfold stringView
  split
  · next hz =>
    have : s = [] := List.length_eq_zero_iff.mp (by omega)
    rw [this]
  · rw [if_neg (by omega), Nat.add_sub_cancel_left, h]

/-- The bounds with which the `k`-th string of a page is dereferenced. -/
theorem derefShort_eq {rows : List (Option (List UInt8))} {p : Page} (h : StringPage rows p)
    {k : Nat} (hk : k < rows.reduceOption.length) :
    derefShort p (4 + 2 * k) =
      stringView p
        (((rows.reduceOption.take k).flatten.length + (4 + p.u16 0 * 2) % 65536) % 65536)
        (((rows.reduceOption.take (k + 1)).flatten.length +
          (4 + p.u16 0 * 2) % 65536) % 65536) := by
  have hfits := h.fits
  have hread : ∀ j < rows.reduceOption.length,
      Page.readAt UInt16 p (4 + 2 * j) = .ok (p.read UInt16 (4 + 2 * j)) := fun j hj =>
    if_pos (by
      have : Pod.size UInt16 = 2 := rfl
      omega)
  have hoff : ∀ j < rows.reduceOption.length, (p.read UInt16 (4 + 2 * j)).toNat =
      (rows.reduceOption.take (j + 1)).flatten.length := h.offsets
  unfold derefShort
  cases k with
  | zero =>
    rw [if_neg (by omega)]
    have h0 := hread 0 hk
    have h0' := hoff 0 hk
    rw [Nat.mul_zero, Nat.add_zero] at h0 h0'
    simp only [h0, ok_bind, h0']
    simp
  | succ k =>
    have hprev : 4 + 2 * (k + 1) - 2 = 4 + 2 * k := by omega
    rw [if_pos (by omega), hread (k + 1) hk, ok_bind, hprev, hread k (by omega), ok_bind,
      hoff k (by omega), hoff (k + 1) hk]

theorem dataLength_eq {rows : List (Option (List UInt8))} {p : Page} (h : StringPage rows p) :
    dataLength p = rows.reduceOption.flatten.length := by
  unfold dataLength
  rw [h.numNonNull]
  split
  · next h0 => rw [List.length_eq_zero_iff.mp h0]; rfl
  · next h0 =>
    rw [h.offsets _ (by omega), List.take_of_length_le (by omega)]

/-- If every string of a page is dereferenced right, so are the bytes of all of them. -/
theorem slice_of_deref {rows : List (Option (List UInt8))} {p : Page} (h : StringPage rows p)
    (hd : ∀ k (hk : k < rows.reduceOption.length),
      derefShort p (4 + 2 * k) = .ok rows.reduceOption[k]) :
    ∀ k ≤ rows.reduceOption.length, (rows.reduceOption.take k).flatten.length = 0 ∨
      (4 + p.u16 0 * 2) % 65536 + (rows.reduceOption.take k).flatten.length ≤ 8192 ∧
      p.slice ((4 + p.u16 0 * 2) % 65536) (rows.reduceOption.take k).flatten.length =
        (rows.reduceOption.take k).flatten := by
  intro k
  induction k with
  | zero => exact fun _ => .inl (by simp)
  | succ k ih =>
    intro hk
    have hview := (derefShort_eq h hk).symm.trans (hd k hk)
    have hlen := length_flatten_take_succ rows.reduceOption hk
    have hflat : (rows.reduceOption.take (k + 1)).flatten =
        (rows.reduceOption.take k).flatten ++ rows.reduceOption[k] := by
      rw [List.take_succ_eq_append_getElem hk, List.flatten_append, List.flatten_singleton]
    by_cases hs : rows.reduceOption[k] = []
    · rw [hflat, hs, List.append_nil]
      exact ih (by omega)
    · obtain ⟨hb, hle, hslice⟩ := stringView_ok hs hview
      -- The first non-empty string starts at the base, which is therefore inside the page.
      have hbase : ((rows.reduceOption.take k).flatten.length + (4 + p.u16 0 * 2) % 65536) % 65536 =
          (4 + p.u16 0 * 2) % 65536 + (rows.reduceOption.take k).flatten.length := by
        rcases ih (by omega) with h0 | ⟨hfit, -⟩
        · rw [h0]
          omega
        · omega
      rw [hbase] at hb hslice
      refine .inr ⟨by omega, ?_⟩
      rw [hlen, Buf.slice_add, hslice, hflat]
      rcases ih (by omega) with h0 | ⟨-, hprev⟩
      · rw [h0, List.length_eq_zero_iff.mp h0]
        rfl
      · rw [hprev]

/-- The strings of a page are dereferenced right exactly when the base offsets agree on it. -/
theorem derefShort_iff {rows : List (Option (List UInt8))} {p : Page} (h : StringPage rows p) :
    (∀ k (hk : k < rows.reduceOption.length),
      derefShort p (4 + 2 * k) = .ok rows.reduceOption[k]) ↔ BaseAgrees p := by
  have hfits := h.fits
  have hbytes := h.bytes
  unfold BaseAgrees
  rw [dataLength_eq h, h.numNonNull, Nat.mul_comm rows.reduceOption.length 2, hbytes]
  constructor
  · intro hd
    have hall := slice_of_deref h hd _ (le_refl _)
    rw [List.take_length] at hall
    exact .inr hall
  · intro hagree k hk
    have hsum := length_flatten_take_succ rows.reduceOption hk
    have htotal := congrArg List.length (flatten_eq_around rows.reduceOption hk)
    rw [List.length_append, List.length_append] at htotal
    rw [derefShort_eq h hk, hsum]
    have hslice : rows.reduceOption.flatten.length = 0 ∨
        (4 + p.u16 0 * 2) % 65536 + rows.reduceOption.flatten.length ≤ 8192 ∧
        p.slice ((4 + p.u16 0 * 2) % 65536) rows.reduceOption.flatten.length =
          rows.reduceOption.flatten := by
      rcases hagree with heq | h0 | hs
      · refine .inr ?_
        rw [heq, Nat.mod_eq_of_lt (by omega), Nat.mul_comm rows.reduceOption.length 2]
        exact ⟨by omega, hbytes⟩
      · exact .inl h0
      · exact .inr hs
    rcases hslice with h0 | ⟨hfit, hs⟩
    · have hempty : rows.reduceOption[k] = [] := List.length_eq_zero_iff.mp (by omega)
      rw [hempty]
      simp [stringView]
    · have hstart : ((rows.reduceOption.take k).flatten.length +
          (4 + p.u16 0 * 2) % 65536) % 65536 =
          (4 + p.u16 0 * 2) % 65536 + (rows.reduceOption.take k).flatten.length := by omega
      have hend : ((rows.reduceOption.take k).flatten.length + rows.reduceOption[k].length +
          (4 + p.u16 0 * 2) % 65536) % 65536 =
          (4 + p.u16 0 * 2) % 65536 + (rows.reduceOption.take k).flatten.length +
            rows.reduceOption[k].length := by omega
      rw [hstart, hend]
      exact stringView_slice (by omega) (slice_string hs hk)

/-! ## A column -/

/-- The references of one page are dereferenced right exactly when its bases agree. -/
theorem stringRefs_iff {inputs : List ColumnarTable} {table : ColumnarTable} {column : Column}
    {tableId colId idx : Nat} {rows : List (Option (List UInt8))} {p : Page}
    (ht : inputs[tableId % 65536]? = some table) (hc : table.columns[colId % 65536]? = some column)
    (hp : column.pages[idx]? = some p) (hidx : idx < 65536) (h : StringPage rows p) :
    List.Forall₂ (fun v row => stringCall inputs v = .ok row)
      (stringRefs tableId colId idx rows) rows ↔ BaseAgrees p := by
  have hfits := h.fits
  have hlt := h.numRows_lt
  have hnull : ∀ i : Nat, stringCall inputs (Value.str tableId colId idx 0xFFFF) = .ok none :=
    fun i => if_pos (by rw [Value.isNull_str (by decide) (by decide)]; rfl)
  have hcall : ∀ k < rows.reduceOption.length,
      stringCall inputs (Value.str tableId colId idx (4 + 2 * k)) =
        (derefShort p (4 + 2 * k) >>= fun s => .ok (some s)) := by
    intro k hk
    have hz : ¬ (Value.str tableId colId idx (4 + 2 * k)).isNull = true := by
      rw [Value.isNull_str (by omega) (by omega)]
      simp
      omega
    unfold stringCall
    rw [if_neg hz]
    congr 1
    simp only [derefString, Value.tableId_str, Value.colId_str, Value.pageId_str,
      Value.offset_str, at?_eq_ok ht, at?_eq_ok hc, Nat.mod_eq_of_lt hidx, at?_eq_ok hp, ok_bind]
    rw [if_neg (by omega), Nat.mod_eq_of_lt (by omega)]
  unfold stringRefs
  rw [rowValues_iff hnull, ← derefShort_iff h]
  refine forall_congr' fun k => forall_congr' fun hk => ?_
  rw [Nat.zero_add, hcall k hk]
  cases derefShort p (4 + 2 * k) with
  | ok s => simp
  | error e => exact ⟨nofun, nofun⟩

theorem columnRefs_iff {inputs : List ColumnarTable} {table : ColumnarTable} {column : Column}
    {tableId colId : Nat} {chunks : List (List (Option (List UInt8)))} {pages : List Page}
    (ht : inputs[tableId % 65536]? = some table) (hc : table.columns[colId % 65536]? = some column)
    (h : List.Forall₂ StringPage chunks pages) (idx : Nat) (hp : column.pages.drop idx = pages)
    (hidx : idx + pages.length ≤ 65536) :
    List.Forall₂ (fun v row => stringCall inputs v = .ok row)
      (columnRefs tableId colId chunks idx) chunks.flatten ↔ ∀ p ∈ pages, BaseAgrees p := by
  induction h generalizing idx with
  | nil => simp [columnRefs]
  | @cons rows p chunks pages hpage _ ih =>
    have hget : column.pages[idx]? = some p := by
      have := congrArg (fun l => l[0]?) hp
      simpa using this
    have hdrop : column.pages.drop (idx + 1) = pages := by
      rw [← List.drop_drop, hp]
      rfl
    rw [List.length_cons] at hidx
    unfold columnRefs
    rw [List.flatten_cons,
      forall₂_append_iff (by rw [stringRefs, length_rowValues]),
      stringRefs_iff ht hc hget (by omega) hpage, ih (idx + 1) hdrop (by omega)]
    simp

/-- The pages are those of a column with the given strings and NULLs, written by
`ColumnInserter<std::string>` or by `to_columnar`. -/
def WrittenStrings (rows : List (Option (List UInt8))) (pages : List Page) : Prop :=
  ∃ fresh, StringInserter.write fresh rows = pages ∨
    writeColumn fresh .varchar (rows.map (cellOf Data.varchar)) = .ok pages

/-- Every row of the column, scanned to a reference and dereferenced in a plan with the given
inputs, is inserted as `from_columnar` reads it. -/
def MaterializesBack (inputs : List ColumnarTable) (tableId colId numRows : Nat)
    (column : Column) : Prop :=
  ∃ decoded, readColumn numRows column = .ok decoded ∧ ∀ junk, ∀ i < numRows, ∃ v call,
    (buildColumnInserter tableId colId column .varchar junk).getValue i = .ok v ∧
    stringCall inputs v = .ok call ∧ decoded[i]? = some (cellOf Data.varchar call)

theorem WrittenStrings.segments {rows : List (Option (List UInt8))} {pages : List Page}
    (h : WrittenStrings rows pages) : ∃ segs, rows = segs.flatMap Segment.values ∧
      StringPages segs pages ∧ ∀ seg ∈ segs, seg.values ≠ [] := by
  obtain ⟨fresh, rfl | hw⟩ := h
  · exact StringInserter.write_ok fresh rows
  · obtain ⟨pages', segs, hw', hrows, hp, hne⟩ := StringWriter.write_ok fresh rows
    have hpages : pages = pages' := Except.ok.inj (hw.symm.trans hw')
    exact ⟨segs, hrows, hpages ▸ hp, hne⟩

theorem WrittenStrings.chunks {rows : List (Option (List UInt8))} {pages : List Page}
    (h : WrittenStrings rows pages) (hshort : ∀ s, some s ∈ rows → s.length ≤ 8192 - 7) :
    ∃ chunks, rows = chunks.flatten ∧ List.Forall₂ StringPage chunks pages := by
  obtain ⟨segs, rfl, hp, -⟩ := h.segments
  exact hp.short_pages hshort

theorem WrittenStrings.readColumn {rows : List (Option (List UInt8))} {pages : List Page}
    (h : WrittenStrings rows pages) :
    readColumn rows.length ⟨.varchar, pages⟩ = .ok (rows.map (cellOf Data.varchar)) := by
  obtain ⟨segs, hrows, hp, -⟩ := h.segments
  have hholds : ColumnHolds ⟨.varchar, pages⟩ (rows.map (cellOf Data.varchar)) :=
    ⟨segs, by rw [hrows], hp⟩
  have hread := readColumn_holds hholds
  rwa [List.length_map] at hread

theorem cellOf_varchar_inj {a b : Option (List UInt8)}
    (h : cellOf Data.varchar a = cellOf Data.varchar b) : a = b := by
  cases a <;> cases b <;> simp_all [cellOf]

/-- Materialising back, reference by reference. -/
theorem materializesBack_iff {inputs : List ColumnarTable} {tableId colId : Nat}
    {rows : List (Option (List UInt8))} {chunks : List (List (Option (List UInt8)))}
    {pages : List Page} (hw : WrittenStrings rows pages) (hrows : rows = chunks.flatten)
    (hp : List.Forall₂ StringPage chunks pages)
    (hlen : (columnRefs tableId colId chunks 0).length = rows.length) :
    MaterializesBack inputs tableId colId rows.length ⟨.varchar, pages⟩ ↔
      List.Forall₂ (fun v row => stringCall inputs v = .ok row)
        (columnRefs tableId colId chunks 0) chunks.flatten := by
  rw [← hrows]
  have hget : ∀ junk i (hi : i < rows.length),
      (buildColumnInserter tableId colId ⟨.varchar, pages⟩ .varchar junk).getValue i =
        .ok (columnRefs tableId colId chunks 0)[i] := fun junk i hi => by
    obtain ⟨hvalid, hvalues⟩ := buildColumnInserter_varchar tableId colId hp junk
    simp only [← hvalues]
    exact hvalid.getValue _
  constructor
  · rintro ⟨decoded, hread, h⟩
    have hdec : decoded = rows.map (cellOf Data.varchar) :=
      Except.ok.inj (hread.symm.trans hw.readColumn)
    refine List.forall₂_iff_get.mpr ⟨hlen, fun i hi hi' => ?_⟩
    obtain ⟨v, call, hv, hcall, hd⟩ := h (fun _ _ => 0) i hi'
    have hvi : v = (columnRefs tableId colId chunks 0)[i] :=
      Except.ok.inj (hv.symm.trans (hget _ i hi'))
    rw [hdec, List.getElem?_map, List.getElem?_eq_getElem hi'] at hd
    have hri : rows[i] = call := cellOf_varchar_inj (Option.some.inj hd)
    rw [hvi] at hcall
    rw [← hri] at hcall
    exact hcall
  · intro h
    refine ⟨_, hw.readColumn, fun junk i hi => ⟨_, rows[i], hget junk i hi, h.get _ hi, ?_⟩⟩
    rw [List.getElem?_map, List.getElem?_eq_getElem hi]
    rfl

theorem length_columnRefs (tableId colId : Nat) (chunks : List (List (Option (List UInt8))))
    (idx : Nat) : (columnRefs tableId colId chunks idx).length = chunks.flatten.length := by
  induction chunks generalizing idx with
  | nil => rfl
  | cons rows chunks ih =>
    unfold columnRefs
    rw [List.flatten_cons, List.length_append, List.length_append, ih, stringRefs,
      length_rowValues]

/-- Dereferencing in a plan in which the reference finds no pages. -/
theorem stringCall_lost {inputs : List ColumnarTable} {tableId colId idx offset : Nat}
    (hlost : ∀ table column, inputs[tableId % 65536]? = some table →
      table.columns[colId % 65536]? = some column → column.pages = [])
    (hpos : 0 < offset) (hlt : offset < 0xFFFF) (row : Option (List UInt8)) :
    stringCall inputs (Value.str tableId colId idx offset) ≠ .ok row := by
  have hz : ¬ (Value.str tableId colId idx offset).isNull = true := by
    rw [Value.isNull_str hpos (by omega)]
    simp
    omega
  unfold stringCall
  rw [if_neg hz, derefString]
  simp only [Value.tableId_str, Value.colId_str]
  unfold at?
  cases ht : inputs[tableId % 65536]? with
  | none => exact nofun
  | some table =>
    simp only [ok_bind]
    cases hc : table.columns[colId % 65536]? with
    | none => exact nofun
    | some column =>
      simp only [ok_bind, hlost table column ht hc, List.getElem?_nil]
      exact nofun

/-- In such a plan only NULL rows are materialised. -/
theorem rowValues_lost {f : Value → Except Fault (Option (List UInt8))} {value null : Nat → Value}
    (hvalue : ∀ k < 4096, ∀ row, f (value k) ≠ .ok row) (rows : List (Option (List UInt8)))
    (i cur : Nat) (hcur : cur + rows.reduceOption.length ≤ 4096)
    (h : List.Forall₂ (fun v row => f v = .ok row) (rowValues value null rows i cur) rows) :
    ∀ r ∈ rows, r = none := by
  induction rows generalizing i cur with
  | nil => simp
  | cons row rows ih =>
    cases row with
    | none =>
      rw [rowValues, List.forall₂_cons] at h
      intro r hr
      rcases List.mem_cons.mp hr with rfl | hr
      · rfl
      · exact ih (i + 1) cur hcur h.2 r hr
    | some s =>
      rw [rowValues, List.forall₂_cons] at h
      rw [List.reduceOption_cons_of_some, List.length_cons] at hcur
      exact absurd h.1 (hvalue cur (by omega) (some s))

theorem columnRefs_lost {inputs : List ColumnarTable} {tableId colId : Nat}
    {chunks : List (List (Option (List UInt8)))} {pages : List Page}
    (hlost : ∀ table column, inputs[tableId % 65536]? = some table →
      table.columns[colId % 65536]? = some column → column.pages = [])
    (h : List.Forall₂ StringPage chunks pages) (idx : Nat)
    (hall : List.Forall₂ (fun v row => stringCall inputs v = .ok row)
      (columnRefs tableId colId chunks idx) chunks.flatten) : ∀ r ∈ chunks.flatten, r = none := by
  induction h generalizing idx with
  | nil => simp
  | @cons rows p chunks pages hp _ ih =>
    rw [columnRefs, List.flatten_cons,
      forall₂_append_iff (by rw [stringRefs, length_rowValues])] at hall
    have hfits := hp.fits
    intro r hr
    rcases List.mem_append.mp hr with hr | hr
    · exact rowValues_lost (fun k hk row => stringCall_lost hlost (by omega) (by omega) row)
        rows 0 0
        (by omega) hall.1 r hr
    · exact ih (idx + 1) hall.2 r hr

theorem reduceOption_of_null {α : Type} {rows : List (Option α)} (h : ∀ r ∈ rows, r = none) :
    rows.reduceOption = [] := by
  rw [List.reduceOption_eq_nil_iff]
  exact ⟨rows.length, List.eq_replicate_of_mem h⟩

theorem columnRefs_null (inputs : List ColumnarTable) (tableId colId : Nat)
    (chunks : List (List (Option (List UInt8)))) (idx : Nat)
    (hnull : ∀ r ∈ chunks.flatten, r = none) :
    List.Forall₂ (fun v row => stringCall inputs v = .ok row)
      (columnRefs tableId colId chunks idx) chunks.flatten := by
  induction chunks generalizing idx with
  | nil => exact .nil
  | cons rows chunks ih =>
    rw [List.flatten_cons] at hnull
    unfold columnRefs
    rw [List.flatten_cons, forall₂_append_iff (by rw [stringRefs, length_rowValues])]
    refine ⟨?_, ih (idx + 1) fun r hr => hnull r (List.mem_append_right _ hr)⟩
    have hred := reduceOption_of_null fun r hr => hnull r (List.mem_append_left _ hr)
    unfold stringRefs
    rw [rowValues_iff (fun _ => if_pos (by
      rw [Value.isNull_str (by decide) (by decide)]; rfl))]
    simp [hred]

/-- On pages without strings the bases agree. -/
theorem baseAgrees_of_null {chunks : List (List (Option (List UInt8)))} {pages : List Page}
    (h : List.Forall₂ StringPage chunks pages) (hnull : ∀ r ∈ chunks.flatten, r = none) :
    ∀ p ∈ pages, BaseAgrees p := by
  intro p hp
  obtain ⟨i, hi, rfl⟩ := List.mem_iff_getElem.mp hp
  have hi' : i < chunks.length := h.length_eq ▸ hi
  have hpage : StringPage chunks[i] pages[i] := h.get hi' hi
  refine .inr (.inl ?_)
  rw [dataLength_eq hpage, reduceOption_of_null fun r hr =>
    hnull r (List.mem_flatten_of_mem (List.getElem_mem hi') hr)]
  rfl

/-- Inputs whose only pages are those of one column of one table. -/
def inputsWith (tableId colId : Nat) (column : Column) : List ColumnarTable :=
  List.replicate tableId ⟨0, []⟩ ++ [⟨0, List.replicate colId ⟨.varchar, []⟩ ++ [column]⟩]

theorem inputsWith_lost {tableId colId : Nat} (column : Column)
    (h : ¬ (tableId < 65536 ∧ colId < 65536)) (table : ColumnarTable) (c : Column)
    (ht : (inputsWith tableId colId column)[tableId % 65536]? = some table)
    (hc : table.columns[colId % 65536]? = some c) : c.pages = [] := by
  by_cases htid : tableId < 65536
  · have hcid : colId % 65536 < colId := by omega
    rw [Nat.mod_eq_of_lt htid] at ht
    have htable : table = ⟨0, List.replicate colId ⟨.varchar, []⟩ ++ [column]⟩ := by
      simpa [inputsWith] using ht.symm
    rw [htable] at hc
    have hempty : c = ⟨.varchar, []⟩ := by
      simpa [List.getElem?_append, hcid] using hc.symm
    rw [hempty]
  · have hlt : tableId % 65536 < tableId := by omega
    have htable : table = ⟨0, []⟩ := by
      simpa [inputsWith, List.getElem?_append, hlt] using ht.symm
    rw [htable] at hc
    simp at hc

/-- A string column is materialised from its references as `from_columnar` reads it, in every
plan that has it at the place they name, exactly when the base offsets agree on all its pages and
the place fits the 16-bit fields of a reference (or nothing is dereferenced). -/
theorem materializesBack_column_iff {rows : List (Option (List UInt8))} {pages : List Page}
    (tableId colId : Nat) (hw : WrittenStrings rows pages)
    (hshort : ∀ s, some s ∈ rows → s.length ≤ 8192 - 7) (hpages : pages.length ≤ 65536) :
    (∀ inputs table, inputs[tableId]? = some table →
        table.columns[colId]? = some ⟨.varchar, pages⟩ →
        MaterializesBack inputs tableId colId rows.length ⟨.varchar, pages⟩) ↔
      (∀ p ∈ pages, BaseAgrees p) ∧
        ((∀ r ∈ rows, r = none) ∨ tableId < 65536 ∧ colId < 65536) := by
  obtain ⟨chunks, rfl, hp⟩ := hw.chunks hshort
  have hback : ∀ inputs, MaterializesBack inputs tableId colId chunks.flatten.length
      ⟨.varchar, pages⟩ ↔ List.Forall₂ (fun v row => stringCall inputs v = .ok row)
        (columnRefs tableId colId chunks 0) chunks.flatten := fun inputs =>
    materializesBack_iff hw rfl hp (length_columnRefs tableId colId chunks 0)
  constructor
  · intro h
    have hall := (hback _).mp (h (inputsWith tableId colId ⟨.varchar, pages⟩)
      ⟨0, List.replicate colId ⟨.varchar, []⟩ ++ [⟨.varchar, pages⟩]⟩
      (by simp [inputsWith]) (by simp))
    by_cases hids : tableId < 65536 ∧ colId < 65536
    · have ht : (inputsWith tableId colId ⟨.varchar, pages⟩)[tableId % 65536]? =
          some ⟨0, List.replicate colId ⟨.varchar, []⟩ ++ [⟨.varchar, pages⟩]⟩ := by
        simp [inputsWith, Nat.mod_eq_of_lt hids.1]
      have hc : (List.replicate colId ⟨.varchar, []⟩ ++ [(⟨.varchar, pages⟩ : Column)])[
          colId % 65536]? = some ⟨.varchar, pages⟩ := by
        simp [Nat.mod_eq_of_lt hids.2]
      exact ⟨(columnRefs_iff ht hc hp 0 rfl (by omega)).mp hall, .inr hids⟩
    · have hnull := columnRefs_lost (inputsWith_lost _ hids) hp 0 hall
      exact ⟨baseAgrees_of_null hp hnull, .inl hnull⟩
  · rintro ⟨hagree, hnull | ⟨htid, hcid⟩⟩ inputs table ht hc
    · exact (hback inputs).mpr (columnRefs_null inputs tableId colId chunks 0 hnull)
    · rw [← Nat.mod_eq_of_lt htid] at ht
      rw [← Nat.mod_eq_of_lt hcid] at hc
      exact (hback inputs).mpr ((columnRefs_iff ht hc hp 0 rfl (by omega)).mpr hagree)

/-- The string `"a"` and an empty string. -/
def aThenEmpty : Column :=
  ⟨.varchar, StringInserter.write (fun _ => Buf.zero 8192) [some [97], some []]⟩

theorem materializesBack_aThenEmpty :
    MaterializesBack [⟨2, [aThenEmpty]⟩] 0 0 2 aThenEmpty := by
  have hfull : ∀ p ∈ aThenEmpty.pages, p.u16 0 = p.u16 2 := by decide
  have hall := (materializesBack_column_iff 0 0 ⟨_, .inl rfl⟩ (by simp) (by decide)).mpr
    ⟨fun p hp => .inl (hfull p hp), .inr (by decide)⟩
  exact hall [⟨2, [aThenEmpty]⟩] ⟨2, [aThenEmpty]⟩ rfl rfl

/-- A NULL row and then the string `"a"`. -/
def nullThenA : Column :=
  ⟨.varchar, StringInserter.write (fun _ => Buf.zero 8192) [none, some [97]]⟩

/-- Its second row is materialised as the byte after the string. -/
theorem not_materializesBack_nullThenA : WrittenStrings [none, some [97]] nullThenA.pages ∧
    readColumn 2 nullThenA = .ok [.null, .varchar [97]] ∧
    (buildColumnInserter 0 0 nullThenA .varchar fun _ _ => 0).getValue 1 =
      .ok (Value.str 0 0 0 4) ∧
    stringCall [⟨2, [nullThenA]⟩] (Value.str 0 0 0 4) = .ok (some [0]) ∧
    ¬ MaterializesBack [⟨2, [nullThenA]⟩] 0 0 2 nullThenA := by
  have hread : readColumn 2 nullThenA = .ok [.null, .varchar [97]] := rfl
  have hvalue : (buildColumnInserter 0 0 nullThenA .varchar fun _ _ => 0).getValue 1 =
      .ok (Value.str 0 0 0 4) := rfl
  have hcall : stringCall [⟨2, [nullThenA]⟩] (Value.str 0 0 0 4) = .ok (some [0]) := rfl
  refine ⟨⟨_, .inl rfl⟩, hread, hvalue, hcall, ?_⟩
  rintro ⟨decoded, hdecoded, h⟩
  obtain ⟨v, call, hv, hc, hd⟩ := h (fun _ _ => 0) 1 (by decide)
  have hv : v = Value.str 0 0 0 4 := Except.ok.inj (hv.symm.trans hvalue)
  have hdec : decoded = [.null, .varchar [97]] := Except.ok.inj (hdecoded.symm.trans hread)
  have hcall' : call = some [0] := Except.ok.inj (hc.symm.trans (hv ▸ hcall))
  rw [hdec, hcall'] at hd
  exact absurd hd (by decide)

end HashJoin
