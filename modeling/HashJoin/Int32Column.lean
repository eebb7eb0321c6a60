import HashJoin.ColumnInserterProof
import HashJoin.Materialize

/-!
# INT32 columns

Scanning the pages of an `INT32` column, through buffers when there are NULLs and in place when
there are none. In place, `get_value` finds a row by dividing by the row count of the first page,
which is right when the pages are uniform.
-/

namespace HashJoin

open Bytes Chunks

/-- The pages hold the rows chunk by chunk, and none is empty. -/
structure Int32Pages (chunks : List (List (Option Int32))) (pages : List Page) : Prop where
  pages : List.Forall₂ (FixedPage 4) chunks pages
  nonempty : ∀ c ∈ chunks, c ≠ []

theorem Int32Pages.numRows {chunks : List (List (Option Int32))} {pages : List Page}
    (h : Int32Pages chunks pages) : pages.map (fun p => p.u16 0) = chunks.map List.length := by
  have hp := h.pages
  clear h
  induction hp with
  | nil => rfl
  | cons hp _ ih => rw [List.map_cons, List.map_cons, ih, hp.numRows]

/-! ## Through buffers -/

/-- What the row loop pushes for a page. -/
def int32Values (junk : Nat → Int32) (p : Page) (rows : List (Option Int32)) : List Value :=
  rowValues (fun cur => Value.int32 (p.read Int32 (4 + 4 * cur))) (fun i => Value.null (junk i))
    rows 0 0

theorem scanInt32Page_eq (junk : Nat → Int32) {rows : List (Option Int32)} {p : Page}
    (h : FixedPage 4 rows p) (b : Buffers) :
    scanInt32Page junk b p = (int32Values junk p rows).foldl Buffers.push b := by
  unfold scanInt32Page
  rw [h.numRows]
  apply scanRows_eq _ _ rows 0 0 b
  intro k hk
  rw [Nat.zero_add]
  exact h.bits k hk

theorem keys_int32Values (junk : Nat → Int32) {rows : List (Option Int32)} {p : Page}
    (h : FixedPage 4 rows p) : (int32Values junk p rows).map Value.key = rows := by
  have hrows : List.Forall₂ (fun v row => Except.ok (ε := Fault) v.key = .ok row)
      (int32Values junk p rows) rows := by
    refine (rowValues_iff (fun i => rfl) rows 0 0).mpr fun k hk => ?_
    have hval : p.read Int32 (4 + 4 * k) = rows.reduceOption[k] := h.values k hk
    rw [Nat.zero_add, hval]
    rfl
  have hkeys := List.forall₂_map_left_iff.mpr (hrows.imp fun _ _ => Except.ok.inj)
  rwa [List.forall₂_eq_eq_eq] at hkeys

theorem isInt32_rowValues {α : Type} {value : Nat → Value} {null : Nat → Value}
    (hvalue : ∀ k, (value k).IsInt32) (hnull : ∀ k, (null k).IsInt32) (rows : List (Option α))
    (i cur : Nat) : ∀ v ∈ rowValues value null rows i cur, v.IsInt32 := by
  induction rows generalizing i cur with
  | nil => simp [rowValues]
  | cons row rows ih =>
    cases row with
    | none => exact List.forall_mem_cons.mpr ⟨hnull i, ih _ _⟩
    | some _ => exact List.forall_mem_cons.mpr ⟨hvalue cur, ih _ _⟩

theorem scanInt32_pages (junk : Nat → Nat → Int32) {chunks : List (List (Option Int32))}
    {pages : List Page} (h : List.Forall₂ (FixedPage 4) chunks pages) (idx : Nat) (b : Buffers)
    {vs : List Value} (hb : b.Holds vs) : ∃ ws,
      ((pages.zipIdx idx).foldl (fun b pi => scanInt32Page (junk pi.2) b pi.1) b).Holds (vs ++ ws) ∧
        ws.map Value.key = chunks.flatten ∧ ∀ v ∈ ws, v.IsInt32 := by
  induction h generalizing idx b vs with
  | nil => exact ⟨[], by simpa using hb, rfl, by simp⟩
  | @cons rows p chunks pages hp _ ih =>
    rw [List.zipIdx_cons, List.foldl_cons, scanInt32Page_eq _ hp]
    obtain ⟨ws, hws, hkeys, hint⟩ := ih (idx + 1) _ (hb.pushAll (int32Values (junk idx) p rows))
    refine ⟨int32Values (junk idx) p rows ++ ws, by rwa [List.append_assoc] at hws, ?_, ?_⟩
    · rw [List.map_append, keys_int32Values _ hp, hkeys, List.flatten_cons]
    · intro v hv
      rcases List.mem_append.mp hv with hv | hv
      · exact isInt32_rowValues (fun _ => .inr rfl) (fun _ => .inl rfl) rows 0 0 v hv
      · exact hint v hv

/-! ## In place -/

/-- The null-free rows of a page. -/
theorem keys_pageValues {rows : List (Option Int32)} {p : Page} (h : FixedPage 4 rows p)
    (hfull : none ∉ rows) : (pageValues p).map Value.key = rows := by
  have hred : rows.reduceOption.map some = rows := by
    clear h
    induction rows with
    | nil => rfl
    | cons row rows ih =>
      rw [List.mem_cons, not_or] at hfull
      cases row with
      | none => exact absurd rfl hfull.1
      | some v => rw [List.reduceOption_cons_of_some, List.map_cons, ih hfull.2]
  have hlen : rows.reduceOption.length = rows.length := by
    rw [← List.length_map some, hred]
  apply List.ext_getElem (by simp [length_pageValues, h.numRows])
  intro i hi hi'
  have hval : p.read Int32 (4 + 4 * i) = rows.reduceOption[i] := h.values i (by omega)
  simp only [pageValues, List.map_map, List.getElem_map, List.getElem_range, Function.comp_apply,
    Value.key_int32, hval]
  have := List.getElem_map some (l := rows.reduceOption) (h := by rw [hred]; exact hi')
  rw [← this]
  simp only [hred]

/-- A page is null-free when its two counts agree. -/
theorem FixedPage.counts_iff {T : Type} [Pod T] {dataBegin : Nat} {rows : List (Option T)}
    {p : Page}
    (h : FixedPage dataBegin rows p) : p.u16 2 = p.u16 0 ↔ none ∉ rows := by
  rw [h.numRows, h.numNonNull, List.reduceOption_length_eq_iff]
  constructor
  · intro hall hnone
    exact absurd (hall none hnone) (by simp)
  · intro hfull row hrow
    cases row with
    | none => exact absurd hrow hfull
    | some _ => rfl

theorem scanNulls_fst (pages : List Page) (n : Nat) :
    (scanNulls pages n).1 = false ↔ ∀ p ∈ pages, p.u16 2 = p.u16 0 := by
  induction pages generalizing n with
  | nil => simp [scanNulls]
  | cons p pages ih =>
    unfold scanNulls
    rw [List.forall_mem_cons]
    by_cases h : p.u16 2 = p.u16 0
    · simp only [h, ne_eq, not_true_eq_false, if_false, true_and]
      exact ih _
    · simp [h]

theorem scanNulls_snd {pages : List Page} (hfull : ∀ p ∈ pages, p.u16 2 = p.u16 0) {n : Nat}
    (hn : 0 < n) : (scanNulls pages n).2 = n := by
  induction pages with
  | nil => rfl
  | cons p pages ih =>
    rw [List.forall_mem_cons] at hfull
    unfold scanNulls
    rw [if_neg (by simpa using hfull.1), if_neg (by omega), ih hfull.2]

theorem Int32Pages.counts_iff {chunks : List (List (Option Int32))} {pages : List Page}
    (h : Int32Pages chunks pages) :
    (∀ p ∈ pages, p.u16 2 = p.u16 0) ↔ none ∉ chunks.flatten := by
  have hp := h.pages
  clear h
  induction hp with
  | nil => simp
  | cons hp _ ih =>
    rw [List.forall_mem_cons, List.flatten_cons, List.mem_append, not_or]
    exact and_congr hp.counts_iff ih

/-- A column with NULLs, or without rows, is copied to buffers. -/
theorem buildColumnInserter_buffered (tableId colId : Nat) (junk : Nat → Nat → Int32)
    {chunks : List (List (Option Int32))} {pages : List Page} (h : Int32Pages chunks pages)
    (hnull : none ∈ chunks.flatten ∨ chunks = []) :
    (buildColumnInserter tableId colId ⟨.int32, pages⟩ .int32 junk).Valid ∧
      (buildColumnInserter tableId colId ⟨.int32, pages⟩ .int32 junk).originalCol = none ∧
      (buildColumnInserter tableId colId ⟨.int32, pages⟩ .int32 junk).pageRowids = [] ∧
      (buildColumnInserter tableId colId ⟨.int32, pages⟩ .int32 junk).values.map Value.key =
        chunks.flatten ∧
      ∀ v ∈ (buildColumnInserter tableId colId ⟨.int32, pages⟩ .int32 junk).values, v.IsInt32 := by
  obtain ⟨ws, hws, hkeys, hint⟩ := scanInt32_pages junk h.pages 0 _ Buffers.holds_empty
  have hcol : buildColumnInserter tableId colId ⟨.int32, pages⟩ .int32 junk =
      bufferedColumn .int32
        (pages.zipIdx.foldl (fun b pi => scanInt32Page (junk pi.2) b pi.1) {}).close := by
    apply if_neg
    rcases hnull with hnull | rfl
    · have hfst : ¬ (scanNulls pages 0).1 = false := fun hf =>
        h.counts_iff.mp ((scanNulls_fst pages 0).mp hf) hnull
      simp [hfst]
    · have hpages : pages = [] := by simpa using h.pages
      simp [hpages, scanNulls]
  obtain ⟨hvalid, hvalues⟩ := hws.column .int32
  rw [hcol, hvalues]
  exact ⟨hvalid, rfl, rfl, hkeys, hint⟩

/-- A null-free column is pointed to. -/
theorem buildColumnInserter_direct (tableId colId : Nat) (junk : Nat → Nat → Int32)
    {c : List (Option Int32)} {chunks : List (List (Option Int32))} {pages : List Page}
    (h : Int32Pages (c :: chunks) pages) (hfull : none ∉ (c :: chunks).flatten) :
    buildColumnInserter tableId colId ⟨.int32, pages⟩ .int32 junk =
      directColumn .int32 ⟨.int32, pages⟩ c.length := by
  have hcounts := h.counts_iff.mpr hfull
  have hfst := (scanNulls_fst pages 0).mpr hcounts
  have hpos : 0 < c.length := List.length_pos_iff.mpr (h.nonempty c (by simp))
  have hsnd : (scanNulls pages 0).2 = c.length := by
    obtain ⟨p, ps, hp, -, rfl⟩ := List.forall₂_cons_left_iff.mp h.pages
    rw [List.forall_mem_cons] at hcounts
    unfold scanNulls
    rw [if_neg (by simpa using hcounts.1), if_pos rfl, hp.numRows,
      scanNulls_snd hcounts.2 hpos]
  unfold buildColumnInserter
  simp [hfst, hsnd, hpos]

/-- What the pages of a null-free column hold. -/
theorem keys_directColumn {chunks : List (List (Option Int32))} {pages : List Page}
    (h : Int32Pages chunks pages) (hfull : none ∉ chunks.flatten) (n : Nat) :
    (directColumn .int32 ⟨.int32, pages⟩ n).values.map Value.key = chunks.flatten ∧
      (pages.map pageValues).map List.length = chunks.map List.length ∧
      ∀ v ∈ (directColumn .int32 ⟨.int32, pages⟩ n).values, v.IsInt32 := by
  refine ⟨?_, ?_, ?_⟩
  · show ((pages.map pageValues).flatten).map Value.key = chunks.flatten
    have hp := h.pages
    clear h
    induction hp with
    | nil => rfl
    | cons hp _ ih =>
      rw [List.flatten_cons, List.mem_append, not_or] at hfull
      rw [List.map_cons, List.flatten_cons, List.map_append, keys_pageValues hp hfull.1,
        ih hfull.2, List.flatten_cons]
  · rw [← h.numRows, List.map_map]
    exact List.map_congr_left fun p _ => length_pageValues p
  · intro v hv
    obtain ⟨vs, hvs, hv⟩ := List.mem_flatten.mp (show v ∈ (pages.map pageValues).flatten from hv)
    obtain ⟨p, -, rfl⟩ := List.mem_map.mp hvs
    obtain ⟨i, -, rfl⟩ := List.mem_map.mp hv
    exact .inr rfl

theorem FixedPage.fits_rows {rows : List (Option Int32)} {p : Page} (h : FixedPage 4 rows p)
    (hfull : none ∉ rows) : 4 + 4 * rows.length + (rows.length + 7) / 8 ≤ 8192 := by
  have hfits := h.fits
  have hcounts := h.counts_iff.mpr hfull
  rw [h.numRows, h.numNonNull] at hcounts
  have hsize : Pod.size Int32 = 4 := rfl
  rw [hcounts, hsize] at hfits
  exact hfits

/-- It is a valid column when its pages but a shorter last one have the row count of the first. -/
theorem directColumn_valid {c : List (Option Int32)} {chunks : List (List (Option Int32))}
    {pages : List Page} (h : Int32Pages (c :: chunks) pages)
    (hfull : none ∉ (c :: chunks).flatten) (huni : Uniform c.length (c :: chunks)) :
    (directColumn .int32 ⟨.int32, pages⟩ c.length).Valid := by
  obtain ⟨hkeys, hlens, -⟩ := keys_directColumn h hfull c.length
  refine ⟨?_, nofun, ?_⟩
  · have hlen := congrArg List.length hkeys
    rw [List.length_map] at hlen
    rw [hlen, List.length_flatten, ← h.numRows]
    rfl
  · rintro original ho
    obtain rfl := Option.some.inj ho
    refine ⟨List.length_pos_iff.mpr (h.nonempty c (by simp)), huni.congr hlens.symm, ?_, rfl⟩
    intro p hp
    obtain ⟨i, hi, rfl⟩ := List.mem_iff_getElem.mp hp
    have hi' : i < (c :: chunks).length := h.pages.length_eq ▸ hi
    have hpage : FixedPage 4 (c :: chunks)[i] pages[i] := h.pages.get hi' hi
    have := hpage.fits_rows fun hnone =>
      hfull (List.mem_flatten_of_mem (List.getElem_mem hi') hnone)
    rw [hpage.numRows]
    omega

/-! ## Scanning -/

/-- A full null-free page has 1984 rows. -/
theorem FixedPage.length_full {rows : List (Option Int32)} {p : Page} (h : FixedPage 4 rows p)
    (hfull : none ∉ rows) (hpage : PageFull Int32 4 rows) : rows.length = 1984 := by
  have hfits := h.fits_rows hfull
  have hcounts := h.counts_iff.mpr hfull
  rw [h.numRows, h.numNonNull] at hcounts
  have hsize : Pod.size Int32 = 4 := rfl
  unfold PageFull at hpage
  rw [hcounts, hsize] at hpage
  omega

theorem FixedPage.length_le {rows : List (Option Int32)} {p : Page} (h : FixedPage 4 rows p)
    (hfull : none ∉ rows) : rows.length ≤ 1984 := by
  have := h.fits_rows hfull
  omega

/-- A column by one writer has no empty page, and when null-free only pages of 1984 rows before
the last. -/
theorem FixedColumn.int32 {rows : List (Option Int32)} {pages : List Page}
    (h : FixedColumn 4 rows pages) : ∃ chunks, rows = chunks.flatten ∧ Int32Pages chunks pages ∧
      (none ∉ rows → Uniform 1984 chunks) := by
  obtain ⟨chunks, last, rfl, hfull, hp⟩ := h.split
  have hne : ∀ c ∈ chunks, c ≠ [] := by
    intro c hc hnil
    have := hfull c hc
    rw [hnil] at this
    have : ¬ 8192 < 4 + (0 + 1) * 4 + (0 / 8 + 1) := by decide
    contradiction
  have hlens : ∀ pages', List.Forall₂ (FixedPage 4) chunks pages' → none ∉ chunks.flatten →
      ∀ c ∈ chunks, c.length = 1984 := by
    intro pages' hp' hnone c hc
    obtain ⟨i, hi, rfl⟩ := List.mem_iff_getElem.mp hc
    have hi' : i < pages'.length := hp'.length_eq ▸ hi
    have hpage : FixedPage 4 chunks[i] pages'[i] := hp'.get hi hi'
    exact hpage.length_full (fun h => hnone (List.mem_flatten_of_mem hc h)) (hfull _ hc)
  split at hp
  · next hlast =>
    refine ⟨chunks, by simp [hlast], ⟨hp, hne⟩, fun hnone => ?_⟩
    rw [hlast, List.append_nil] at hnone
    have := hlens _ hp hnone
    exact ⟨fun c hc => this c (List.mem_of_mem_dropLast hc), fun c hc => (this c hc).le⟩
  · next hlast =>
    refine ⟨chunks ++ [last], by simp, ⟨hp, ?_⟩, fun hnone => ?_⟩
    · intro c hc
      rcases List.mem_append.mp hc with hc | hc
      · exact hne c hc
      · rw [List.mem_singleton.mp hc]
        exact hlast
    · rw [List.mem_append, not_or] at hnone
      have hlen := hp.length_eq
      rcases List.eq_nil_or_concat' pages with rfl | ⟨ps, q, rfl⟩
      · simp at hlen
      · rw [forall₂_append_iff (by simpa using hlen)] at hp
        have hq : FixedPage 4 last q := by simpa using hp.2
        exact uniform_concat.mpr ⟨hlens ps hp.1 hnone.1, hq.length_le hnone.2⟩

/-- Scanning finds the rows, when the pages of a null-free column are uniform. -/
theorem buildColumnInserter_int32 (tableId colId : Nat) (junk : Nat → Nat → Int32)
    {chunks : List (List (Option Int32))} {pages : List Page} {k : Nat}
    (h : Int32Pages chunks pages) (huni : none ∉ chunks.flatten → Uniform k chunks) :
    (buildColumnInserter tableId colId ⟨.int32, pages⟩ .int32 junk).Valid ∧
      (buildColumnInserter tableId colId ⟨.int32, pages⟩ .int32 junk).values.map Value.key =
        chunks.flatten ∧
      ∀ v ∈ (buildColumnInserter tableId colId ⟨.int32, pages⟩ .int32 junk).values, v.IsInt32 := by
  by_cases hnull : none ∈ chunks.flatten ∨ chunks = []
  · obtain ⟨hvalid, -, -, hkeys, hint⟩ := buildColumnInserter_buffered tableId colId junk h hnull
    exact ⟨hvalid, hkeys, hint⟩
  · obtain ⟨hfull, hne⟩ := not_or.mp hnull
    cases chunks with
    | nil => exact absurd rfl hne
    | cons c chunks =>
      rw [buildColumnInserter_direct tableId colId junk h hfull]
      obtain ⟨hkeys, -, hint⟩ := keys_directColumn h hfull c.length
      exact ⟨directColumn_valid h hfull (huni hfull).head, hkeys, hint⟩

/-! ## Written columns -/

/-- A column that one of the two writers makes of some rows. -/
inductive Written (rows : List (Option Int32)) : Column → Prop where
  | toColumnar {fresh : Nat → Nat → Page} {t : Table} {table : ColumnarTable} {i : Nat}
      {column : Column} : toColumnar fresh t = .ok table → t.types[i]? = some .int32 →
      t.column i = rows.map (cellOf Data.int32) → table.columns[i]? = some column →
      Written rows column
  | inserter (fresh : Nat → Page) : Written rows ⟨.int32, ColumnInserter.write fresh rows⟩

theorem Written.fixedColumn {rows : List (Option Int32)} {column : Column}
    (h : Written rows column) : ∃ pages, column = ⟨.int32, pages⟩ ∧ FixedColumn 4 rows pages := by
  cases h with
  | @toColumnar fresh t table i _ htable htype hrows hcolumn =>
    obtain ⟨-, -, hcolumns⟩ := columns_of_toColumnar htable
    obtain ⟨pages, hget, hpages⟩ := hcolumns i .int32 htype
    refine ⟨pages, Option.some.inj (hcolumn.symm.trans hget), ?_⟩
    rw [← Except.ok.inj hpages, hrows]
    exact FixedWriter.write_ok (fresh i) 4 Data.getInt32 Data.int32 (fun _ => rfl) (by simp)
      (by decide) (by decide) rows
  | inserter fresh => exact ⟨_, rfl, ColumnInserter.write_ok fresh rfl rows⟩

/-- A scan preserves a written column. It points to the pages exactly when there are rows and none
is NULL, and then all pages but a shorter last one have the same number of rows. -/
theorem buildColumnInserter_written {rows : List (Option Int32)} {column : Column}
    (h : Written rows column) (tableId colId : Nat) (junk : Nat → Nat → Int32) :
    (buildColumnInserter tableId colId column .int32 junk).numRows = rows.length ∧
    (∀ i (hi : i < rows.length), ∃ v,
      (buildColumnInserter tableId colId column .int32 junk).getValue i = .ok v ∧
      (rows[i] = none → v.status = 0) ∧ ∀ x, rows[i] = some x → v = Value.int32 x) ∧
    ((buildColumnInserter tableId colId column .int32 junk).originalCol =
      if rows ≠ [] ∧ none ∉ rows then some column else none) ∧
    (rows ≠ [] ∧ none ∉ rows → ∃ k, (∀ p ∈ column.pages.dropLast, p.u16 0 = k) ∧
      (∀ p ∈ column.pages, p.u16 0 ≤ k) ∧ ∀ idx < column.pages.length,
        (buildColumnInserter tableId colId column .int32 junk).pageRowids[idx]? =
          some ((column.pages.take idx).map fun p => p.u16 0).sum) := by
  obtain ⟨pages, rfl, hfixed⟩ := h.fixedColumn
  obtain ⟨chunks, rfl, hpages, huni⟩ := hfixed.int32
  obtain ⟨hvalid, hkeys, hint⟩ := buildColumnInserter_int32 tableId colId junk hpages huni
  have hlen := congrArg List.length hkeys
  rw [List.length_map] at hlen
  have hempty : chunks.flatten = [] ↔ chunks = [] := by
    refine ⟨fun hnil => ?_, fun hnil => by rw [hnil]; rfl⟩
    cases chunks with
    | nil => rfl
    | cons c chunks =>
      exact absurd (List.append_eq_nil_iff.mp hnil).1 (hpages.nonempty c (by simp))
  have horiginal : (buildColumnInserter tableId colId ⟨.int32, pages⟩ .int32 junk).originalCol =
      if chunks.flatten ≠ [] ∧ none ∉ chunks.flatten then some ⟨.int32, pages⟩ else none := by
    by_cases hdirect : chunks.flatten ≠ [] ∧ none ∉ chunks.flatten
    · obtain ⟨c, chunks, rfl⟩ := List.exists_cons_of_ne_nil (mt hempty.mpr hdirect.1)
      rw [if_pos hdirect, buildColumnInserter_direct tableId colId junk hpages hdirect.2]
      rfl
    · rw [if_neg hdirect]
      refine (buildColumnInserter_buffered tableId colId junk hpages ?_).2.1
      rwa [not_and_or, not_not, not_not, hempty, or_comm] at hdirect
  refine ⟨hvalid.numRows.trans hlen, fun i hi => ?_, horiginal, fun hdirect => ?_⟩
  · have hi' := hlen ▸ hi
    have hkey : chunks.flatten[i]? = _ := congrArg (·[i]?) hkeys.symm
    rw [List.getElem?_map, List.getElem?_eq_getElem hi', List.getElem?_eq_getElem hi] at hkey
    have hkey := Option.some.inj hkey
    refine ⟨_, hvalid.getValue hi', fun hnone => ?_, fun x hx => ?_⟩
    · exact Value.status_of_key (hkey.symm.trans hnone)
    · exact Value.eq_int32_of_key (hint _ (List.getElem_mem hi')) (hkey.symm.trans hx)
  · rw [if_pos hdirect] at horiginal
    obtain ⟨-, huniform, -, hrowids⟩ := hvalid.pages _ horiginal
    refine ⟨(buildColumnInserter tableId colId ⟨.int32, pages⟩ .int32 junk).rowsPerPage,
      fun p hp => ?_, fun p hp => ?_, fun idx hidx => ?_⟩
    · rw [← length_pageValues]
      apply huniform.full _
      rw [← List.map_dropLast]
      exact List.mem_map_of_mem hp
    · rw [← length_pageValues]
      exact huniform.le _ (List.mem_map_of_mem hp)
    · rw [hrowids, getElem?_rowids _ _ _ hidx.le, Nat.zero_add, List.length_flatten, List.map_map]
      exact congrArg (fun f => some (List.sum (List.map f _))) (funext length_pageValues)

/-- Two rows by `ColumnInserter<int32_t>`. -/
def fiveSeven : Column :=
  ⟨.int32, ColumnInserter.write (T := Int32) (fun _ => Buf.zero 8192) [some 5, some 7]⟩

theorem buildColumnInserter_written_fiveSeven :
    (buildColumnInserter 0 0 fiveSeven .int32 fun _ _ => 0).numRows = 2 ∧
      (buildColumnInserter 0 0 fiveSeven .int32 fun _ _ => 0).getValue 1 = .ok (Value.int32 7) ∧
      (buildColumnInserter 0 0 fiveSeven .int32 fun _ _ => 0).originalCol = some fiveSeven := by
  have hwritten : Written [some 5, some 7] fiveSeven := .inserter fun _ => Buf.zero 8192
  obtain ⟨hrows, hvalues, horiginal, -⟩ := buildColumnInserter_written hwritten 0 0 fun _ _ => 0
  obtain ⟨v, hv, -, hsome⟩ := hvalues 1 (by decide)
  rw [if_pos ⟨by simp, by simp⟩] at horiginal
  exact ⟨hrows, hv.trans (congrArg Except.ok (hsome 7 rfl)), horiginal⟩

end HashJoin
