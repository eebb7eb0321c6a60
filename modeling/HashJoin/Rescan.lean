import HashJoin.MaterializeProof

/-!
# Scanning a result

The pages of the threads' slices are put one after another, so a page that is not full may stand
in the middle of a null-free column, where `get_value` takes all pages to be alike.
-/

namespace HashJoin

open Bytes Chunks

/-- Scanning the column of a table gives the rows that `from_columnar` decodes, through
`get_value` and page by page. -/
def ScansBack (numRows : Nat) (column : Column) : Prop :=
  ∃ decoded, readColumn numRows column = .ok decoded ∧ ∀ tableId colId junk,
    (buildColumnInserter tableId colId column column.type junk).numRows = numRows ∧
    (∀ i < numRows, ∃ v,
      (buildColumnInserter tableId colId column column.type junk).getValue i = .ok v ∧
      decoded[i]? = some (cellOf Data.int32 v.key)) ∧
    ∀ (idx rowid : Nat) (page : Page),
      (buildColumnInserter tableId colId column column.type junk).pageRowids[idx]? = some rowid →
      column.pages[idx]? = some page → ∀ o < page.u16 0,
      (buildColumnInserter tableId colId column column.type junk).getValue (rowid + o) =
        .ok (Value.int32 (page.read Int32 (4 + 4 * o)))

theorem readColumn_int32 {chunks : List (List (Option Int32))} {pages : List Page}
    (h : Int32Pages chunks pages) : readColumn chunks.flatten.length ⟨.int32, pages⟩ =
      .ok (chunks.flatten.map (cellOf Data.int32)) := by
  have := readColumn_holds (c := ⟨.int32, pages⟩) ⟨chunks, rfl, h.pages⟩
  rwa [List.length_map] at this

/-- On a valid column the two ways to find a row agree. -/
theorem ColumnT.Valid.getValue_rowid {col : ColumnT} (h : col.Valid) {original : Column}
    (ho : col.originalCol = some original) {idx rowid o : Nat} {page : Page}
    (hrow : col.pageRowids[idx]? = some rowid) (hpage : original.pages[idx]? = some page)
    (hlt : o < page.u16 0) :
    col.getValue (rowid + o) = .ok (Value.int32 (page.read Int32 (4 + 4 * o))) := by
  obtain ⟨-, -, -, hrowids⟩ := h.pages original ho
  obtain ⟨hidx, hp⟩ := List.getElem?_eq_some_iff.mp hpage
  have hv : col.values = (original.pages.map pageValues).flatten := by simp [ColumnT.values, ho]
  rw [hrowids, getElem?_rowids _ _ _ hidx.le, Nat.zero_add] at hrow
  have hrow := Option.some.inj hrow
  have hvalue : col.values[rowid + o]? = some (Value.int32 (page.read Int32 (4 + 4 * o))) := by
    have hsplit : original.pages =
      original.pages.take idx ++ page :: original.pages.drop (idx + 1) := by
      rw [← hp, ← List.drop_eq_getElem_cons hidx, List.take_append_drop]
    rw [hv, hsplit, List.map_append, List.flatten_append, List.map_cons, List.flatten_cons, ← hrow,
      List.getElem?_append_right (Nat.le_add_right _ _), Nat.add_sub_cancel_left,
      List.getElem?_append_left (by rwa [length_pageValues])]
    simp [pageValues, hlt]
  obtain ⟨hi, hget⟩ := List.getElem?_eq_some_iff.mp hvalue
  rw [h.getValue hi, hget]

/-- A column whose null-free pages are uniform is scanned right. -/
theorem scansBack_of_uniform {chunks : List (List (Option Int32))} {pages : List Page} {k : Nat}
    (h : Int32Pages chunks pages) (huni : none ∉ chunks.flatten → Uniform k chunks) :
    ScansBack chunks.flatten.length ⟨.int32, pages⟩ := by
  refine ⟨_, readColumn_int32 h, fun tableId colId junk => ?_⟩
  obtain ⟨hvalid, hkeys, -⟩ := buildColumnInserter_int32 tableId colId junk h huni
  have hlen := congrArg List.length hkeys
  rw [List.length_map] at hlen
  refine ⟨hvalid.numRows.trans hlen, fun i hi => ?_, fun idx rowid page hrow hpage o ho => ?_⟩
  · have hi' := hi
    rw [← hlen] at hi'
    refine ⟨_, hvalid.getValue hi', ?_⟩
    rw [← hkeys, List.getElem?_map, List.getElem?_map, List.getElem?_eq_getElem hi']
    rfl
  · by_cases hnull : none ∈ chunks.flatten ∨ chunks = []
    · -- A column in buffers has no row ids.
      rw [(buildColumnInserter_buffered tableId colId junk h hnull).2.2.1] at hrow
      simp at hrow
    · obtain ⟨hfull, hne⟩ := not_or.mp hnull
      cases chunks with
      | nil => exact absurd rfl hne
      | cons c chunks =>
        refine hvalid.getValue_rowid ?_ hrow hpage ho
        rw [buildColumnInserter_direct tableId colId junk h hfull]
        rfl

/-! ## A partly filled page in the middle -/

/-- A first slice that does not fill its pages ends with a page of its own, in which `get_value`
looks for the row after the slice. -/
theorem getValue_after_slice {fresh : Nat → Nat → Page} {k n : Nat} {calls : List (Option Int32)}
    (hfull : none ∉ calls) (hk : 1984 < k) (hdvd : ¬ 1984 ∣ k) (hlen : k < calls.length)
    (tableId colId : Nat) (junk : Nat → Nat → Int32) :
    (buildColumnInserter tableId colId ⟨.int32, slicePages fresh k (n + 1) calls⟩ .int32
      junk).getValue k =
      .ok (Value.int32 ((fresh 0 (k / 1984)).read Int32 (4 + 4 * (k % 1984)))) := by
  obtain ⟨chunks, last, flushed, hsplit, hpageFull, hflushed, hlast⟩ :=
    ColumnInserter.write_split (fresh 0) rfl (slice k calls 0)
  have hslice : slice k calls 0 = calls.take k := by simp [slice]
  have hnone : none ∉ chunks.flatten ++ last := by
    rw [← hsplit, hslice]
    exact fun h => hfull (List.mem_of_mem_take h)
  rw [List.mem_append, not_or] at hnone
  have hchunk : ∀ c ∈ chunks, c.length = 1984 := by
    intro c hc
    obtain ⟨i, hi, rfl⟩ := List.mem_iff_getElem.mp hc
    have hi' : i < flushed.length := hflushed.length_eq ▸ hi
    have hpage : FixedPage 4 chunks[i] flushed[i] := hflushed.get hi hi'
    exact hpage.length_full (fun h => hnone.1 (List.mem_flatten_of_mem hc h)) (hpageFull _ hc)
  have hk' : k = chunks.length * 1984 + last.length := by
    have := congrArg List.length hsplit
    rw [hslice, List.length_take, List.length_append, length_flatten_full hchunk] at this
    omega
  -- The last page of the slice is neither empty nor full.
  obtain ⟨hnil, -⟩ | ⟨hne, p, hwrite, hpage, hrest⟩ := hlast
  · rw [hnil, List.length_nil] at hk'
    omega
  have hpos := List.length_pos_iff.mpr hne
  have hle : last.length ≤ 1984 := FixedPage.length_le hpage hnone.2
  have hcounts := hpage.counts_iff.mpr hnone.2
  rw [hpage.numRows, hpage.numNonNull] at hcounts
  have hpages : slicePages fresh k (n + 1) calls = flushed ++ p ::
      slicePages (fun t => fresh (t + 1)) k n (calls.drop k) := by
    simp [slicePages, List.range_succ_eq_map, Function.comp_def, slice_succ, hwrite]
  obtain ⟨all, hall, hint, -⟩ := slicePages_ok fresh k (n + 1) calls
  have hallNone : none ∉ all.flatten := by
    rw [← hall]
    exact fun h => hfull (List.mem_of_mem_take h)
  rw [hpages] at hint ⊢
  have hq : chunks.length = k / 1984 := by omega
  have hr : last.length = k % 1984 := by omega
  have hget : (flushed ++ p :: slicePages (fun t => fresh (t + 1)) k n (calls.drop k))[k / 1984]? =
      some p := by
    rw [← hq, hflushed.length_eq, List.getElem?_append_right le_rfl]
    simp
  cases flushed with
  | nil =>
    have : chunks.length = 0 := hflushed.length_eq
    omega
  | cons q flushed =>
    obtain ⟨c, all, rfl⟩ : ∃ c rest, all = c :: rest := by
      obtain ⟨c, rest, -, -, h⟩ := List.forall₂_cons_right_iff.mp hint.pages
      exact ⟨c, rest, h⟩
    obtain ⟨c', chunks, hq', -, rfl⟩ := List.forall₂_cons_right_iff.mp hflushed
    have hc : c.length = 1984 := by
      rw [← (List.forall₂_cons.mp hint.pages).1.numRows, hq'.numRows, hchunk c' (by simp)]
    rw [buildColumnInserter_direct tableId colId junk hint hallNone, hc]
    have hsize : Pod.size Int32 = 4 := rfl
    have hfit : 4 + 4 * (k % 1984) + Pod.size Int32 ≤ 8192 := by omega
    have hread : p.read Int32 (4 + 4 * (k % 1984)) =
        (fresh 0 (k / 1984)).read Int32 (4 + 4 * (k % 1984)) := by
      refine congrArg Pod.ofBytes (Buf.slice_congr fun i hlo hhi => ?_)
      have hbegin : dataBegin Int32 = 4 := rfl
      have hlen := hflushed.length_eq
      rw [hrest i (by omega) (by omega), ← hlen, hq]
    simp only [ColumnT.getValue, directColumn, at?_eq_ok hget, ok_bind, Page.readAt, if_pos hfit,
      hread]

/-- No thread but the last one with rows ends with a page that is not full, unless that is its only
page. -/
def FillsPages (numRows numThreads : Nat) : Prop :=
  numThreads = 1 ∨ rowsPerThread numRows numThreads ≤ 1984 ∨
    1984 ∣ rowsPerThread numRows numThreads

instance (numRows numThreads : Nat) : Decidable (FillsPages numRows numThreads) :=
  inferInstanceAs (Decidable (_ ∨ _ ∨ _))

/-- Whatever the new pages contain, the slices of a column are scanned right exactly when they fill
their pages, or the column is copied to buffers for its NULLs. -/
theorem scansBack_slicePages_iff {numThreads : Nat} (hpos : 0 < numThreads)
    (calls : List (Option Int32)) :
    (∀ fresh, ScansBack calls.length ⟨.int32, slicePages fresh
        (rowsPerThread calls.length numThreads) numThreads calls⟩) ↔
      none ∈ calls ∨ FillsPages calls.length numThreads := by
  have hcover : calls.length ≤ numThreads * rowsPerThread calls.length numThreads :=
    le_mul_rowsPerThread hpos
  constructor
  · intro h
    by_contra hcon
    obtain ⟨hfull, hfills⟩ := not_or.mp hcon
    obtain ⟨hone, hfills⟩ := not_or.mp hfills
    obtain ⟨hbig, hdvd⟩ := not_or.mp hfills
    obtain ⟨n, rfl⟩ : ∃ n, numThreads = n + 1 := ⟨numThreads - 1, by omega⟩
    have hlt : rowsPerThread calls.length (n + 1) < calls.length := by
      have hmul := Nat.div_mul_le_self (calls.length + (n + 1) - 1) (n + 1)
      rw [← rowsPerThread, Nat.mul_succ] at hmul
      have hle : 2 * n ≤ rowsPerThread calls.length (n + 1) * n := Nat.mul_le_mul_right n (by omega)
      omega
    generalize rowsPerThread calls.length (n + 1) = k at *
    -- What the memory of the pages held is found in place of the row after the first slice.
    obtain ⟨y, hy⟩ : ∃ y : Int32, calls[k] ≠ some y := by
      by_cases h0 : calls[k] = some 0
      · exact ⟨1, by rw [h0]; decide⟩
      · exact ⟨0, h0⟩
    obtain ⟨decoded, hread, hscan⟩ :=
      h fun _ _ => (Buf.zero 8192).write (4 + 4 * (k % 1984)) y
    obtain ⟨chunks, hchunks, hpages, -⟩ := slicePages_ok
      (fun _ _ => (Buf.zero 8192).write (4 + 4 * (k % 1984)) y) k (n + 1) calls
    rw [List.take_of_length_le hcover] at hchunks
    have hdecoded := readColumn_int32 hpages
    rw [← hchunks] at hdecoded
    obtain ⟨-, hrows, -⟩ := hscan 0 0 fun _ _ => 0
    obtain ⟨v, hv, hcell⟩ := hrows k hlt
    have hsize : Pod.size Int32 = 4 := rfl
    rw [getValue_after_slice hfull (by omega) hdvd hlt, Buf.read_write_same _ _ (by omega)] at hv
    rw [← Except.ok.inj hv, Except.ok.inj (hread.symm.trans hdecoded), List.getElem?_map,
      List.getElem?_eq_getElem hlt] at hcell
    apply hy
    cases hcall : calls[k] with
    | none => exact absurd (hcall ▸ List.getElem_mem hlt) hfull
    | some x =>
      rw [hcall] at hcell
      have := Option.some.inj hcell
      simp only [cellOf, Value.key_int32, Data.int32.injEq] at this
      rw [this]
  · intro h fresh
    obtain ⟨chunks, hchunks, hpages, huni⟩ := slicePages_ok fresh
      (rowsPerThread calls.length numThreads) numThreads calls
    rw [List.take_of_length_le hcover] at hchunks
    rcases h with hnull | rfl | hk
    · have := scansBack_of_uniform (k := 1) hpages fun hnone => absurd (hchunks ▸ hnull) hnone
      rwa [← hchunks] at this
    · have hone : slicePages fresh (rowsPerThread calls.length 1) 1 calls =
          ColumnInserter.write (fresh 0) calls := by
        simp [slicePages, slice, rowsPerThread]
      obtain ⟨chunks, hchunks, hpages, huni⟩ :=
        (ColumnInserter.write_ok (fresh 0) rfl calls).int32
      have := scansBack_of_uniform hpages (hchunks ▸ huni)
      rwa [← hchunks, ← hone] at this
    · have := scansBack_of_uniform hpages fun hnone => huni (hchunks ▸ hnone) hk
      rwa [← hchunks] at this

end HashJoin
