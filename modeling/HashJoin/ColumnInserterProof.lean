import HashJoin.ColumnInserter
import HashJoin.ToColumnarProof

/-!
# What the column inserters write

The pages of `ColumnInserter<T>` for four-byte values and of `ColumnInserter<std::string>`, and
that reading them back gives the inserted values and NULLs.
-/

namespace HashJoin

open Bytes

/-! ## Fixed-width values -/

namespace ColumnInserter

variable {T : Type} [Pod T] {fresh : Nat → Page}

/-- The inserter has flushed `flushed` and has `rows` on the page `cur`. -/
structure Filling (fresh : Nat → Page) (rows : List (Option T)) (flushed : List Page) (cur : Page)
    (w : ColumnInserter T) : Prop where
  column : w.column.At fresh flushed cur
  unused : rows.reduceOption = [] → w.column.pages = flushed
  numRows : w.numRows = rows.length
  dataEnd : w.dataEnd = dataBegin T + Pod.size T * rows.reduceOption.length
  values : ∀ k (h : k < rows.reduceOption.length),
    cur.read T (dataBegin T + Pod.size T * k) = rows.reduceOption[k]
  rest : ∀ off, w.dataEnd ≤ off → cur.byte off = (fresh flushed.length).byte off
  bits : StagedBits rows w.bitmap
  fits : dataBegin T + Pod.size T * rows.reduceOption.length + (rows.length + 7) / 8 ≤ 8192

/-- The inserter is filling a page, and the pages `flushed` hold `chunks`. -/
structure Inv (fresh : Nat → Page) (chunks : List (List (Option T))) (rows : List (Option T))
    (flushed : List Page) (cur : Page) (w : ColumnInserter T) : Prop
    extends Filling fresh rows flushed cur w where
  pages : List.Forall₂ (FixedPage (dataBegin T)) chunks flushed
  full : ∀ c ∈ chunks, PageFull T (dataBegin T) c

theorem dataBegin_ge (T : Type) [Pod T] : 4 ≤ dataBegin T := by
  unfold dataBegin
  split <;> omega

/-- An inserter with no rows on its page. -/
theorem filling_nil {flushed : List Page} {cur : Page} {w : ColumnInserter T}
    (hc : w.column.At fresh flushed cur) (hpages : w.column.pages = flushed)
    (hcur : cur = fresh flushed.length) (hn : w.numRows = 0) (hd : w.dataEnd = dataBegin T)
    (hfit : dataBegin T ≤ 8192) : Filling fresh ([] : List (Option T)) flushed cur w := by
  refine ⟨hc, fun _ => hpages, hn, by simp [hd], by simp, fun off _ => by rw [hcur],
    by simp [StagedBits], ?_⟩
  simpa using hfit

theorem finishPage_numRows (w : ColumnInserter T) (p : Page) (hn : w.numRows ≤ 65504) :
    (w.finishPage p).u16 0 = w.numRows := by
  unfold finishPage
  rw [Buf.u16_memcpy_outside _ (by omega), Buf.u16_setU16_outside _ (by omega),
    Buf.u16_setU16_same _ (by omega), Nat.mod_eq_of_lt (by omega)]

theorem finishPage_numNonNull (w : ColumnInserter T) (p : Page) (hn : w.numRows ≤ 65504) {k : Nat}
    (hs : 0 < Pod.size T) (hend : w.dataEnd = dataBegin T + Pod.size T * k) (hk : k < 65536) :
    (w.finishPage p).u16 2 = k := by
  unfold finishPage
  rw [hend, Nat.add_sub_cancel_left, Nat.mul_div_cancel_left _ hs,
    Buf.u16_memcpy_outside _ (by omega), Buf.u16_setU16_same _ (by omega), Nat.mod_eq_of_lt hk]

/-- The bytes between the counts and the bitmap stay. -/
theorem slice_finishPage (w : ColumnInserter T) (p : Page) {off len : Nat} (hlo : 4 ≤ off)
    (hhi : off + len ≤ 8192 - (w.numRows + 7) / 8) :
    (w.finishPage p).slice off len = p.slice off len := by
  have hsize : Pod.size UInt16 = 2 := rfl
  unfold finishPage
  rw [Buf.slice_memcpy_outside _ (.inl hhi), Buf.setU16, Buf.write,
    Buf.slice_memcpy_outside _ (.inr (by rw [Pod.length_toBytes]; omega)), Buf.setU16, Buf.write,
    Buf.slice_memcpy_outside _ (.inr (by rw [Pod.length_toBytes]; omega))]

/-- Writing the counts and the bitmap makes the page hold its rows. -/
theorem Filling.page {rows : List (Option T)} {flushed : List Page}
    {cur : Page} {w : ColumnInserter T} (h : Filling fresh rows flushed cur w)
    (hs : 0 < Pod.size T) :
    FixedPage (dataBegin T) rows (w.finishPage cur) := by
  have hfits := h.fits
  have h4 := dataBegin_ge T
  have hrows := h.numRows
  have hle : rows.reduceOption.length ≤ rows.length := List.reduceOption_length_le rows
  have hmul : rows.reduceOption.length ≤ Pod.size T * rows.reduceOption.length :=
    Nat.le_mul_of_pos_left _ hs
  refine ⟨?_, ?_, fun i hi => ?_, fun k hk => ?_, hfits⟩
  · rw [finishPage_numRows w cur (by omega), hrows]
  · exact finishPage_numNonNull w cur (by omega) hs h.dataEnd (by omega)
  · unfold finishPage
    rw [hrows]
    exact h.bits.getBitmap (by omega) _ hi
  · have hmul : Pod.size T * k + Pod.size T ≤ Pod.size T * rows.reduceOption.length := by
      rw [← Nat.mul_succ]
      exact Nat.mul_le_mul_left _ hk
    rw [← h.values k hk, Buf.read, Buf.read, slice_finishPage w cur (by omega) (by omega)]

theorem Inv.flush {chunks : List (List (Option T))} {rows : List (Option T)} {flushed : List Page}
    {cur : Page} {w : ColumnInserter T} (h : Inv fresh chunks rows flushed cur w)
    (hs : 0 < Pod.size T) (hfull : PageFull T (dataBegin T) rows) :
    ∃ flushed' cur', Inv fresh (chunks ++ [rows]) [] flushed' cur' (w.savePage fresh) := by
  have hfits := h.fits
  refine ⟨_, _, filling_nil (h.column.nextPage _) (h.column.modifyPage_pages _) (by simp) rfl rfl
    (by omega), List.rel_append h.pages (.cons (h.page hs) .nil), fun c hc => ?_⟩
  rcases List.mem_append.mp hc with hc | hc
  · exact h.full c hc
  · rw [List.mem_singleton.mp hc]
    exact hfull

theorem Filling.pushValue {rows : List (Option T)}
    {flushed : List Page} {cur : Page} {w : ColumnInserter T}
    (h : Filling fresh rows flushed cur w) (v : T)
    (hfit : dataBegin T + Pod.size T * rows.reduceOption.length + Pod.size T +
      (rows.length / 8 + 1) ≤ 8192) :
    Filling fresh (rows ++ [some v]) flushed (cur.write w.dataEnd v)
      { column := w.column.modifyPage fresh fun page => page.write w.dataEnd v
        dataEnd := w.dataEnd + Pod.size T
        bitmap := w.bitmap.modify (w.numRows / 8) (setBit (w.numRows % 8))
        numRows := (w.numRows + 1) % 65536 } := by
  have hfits := h.fits
  have h4 := dataBegin_ge T
  have hred : (rows ++ [some v]).reduceOption = rows.reduceOption ++ [v] := by
    simp [List.reduceOption_append]
  refine ⟨h.column.modifyPage fun page => page.write w.dataEnd v, by simp [hred],
    ?_, ?_, fun k hk => ?_, fun off hoff => ?_, ?_, ?_⟩
  · show (w.numRows + 1) % 65536 = _
    rw [h.numRows, Nat.mod_eq_of_lt (by omega), List.length_append, List.length_singleton]
  · show w.dataEnd + Pod.size T = _
    rw [hred, h.dataEnd, List.length_append, List.length_singleton, Nat.mul_succ, Nat.add_assoc]
  · simp only [hred, h.dataEnd]
    rcases Nat.lt_succ_iff_lt_or_eq.mp (by simpa [hred] using hk) with hlt | rfl
    · have hmul : Pod.size T * k + Pod.size T ≤ Pod.size T * rows.reduceOption.length := by
        rw [← Nat.mul_succ]
        exact Nat.mul_le_mul_left _ hlt
      rw [Buf.read_write_outside _ _ (by omega), h.values k hlt, List.getElem_append_left hlt]
    · rw [Buf.read_write_same _ _ (by omega), List.getElem_concat_length rfl]
  · have hoff : w.dataEnd + Pod.size T ≤ off := hoff
    unfold Buf.write
    rw [Buf.byte_memcpy_outside _ (.inr (by rw [Pod.length_toBytes]; omega)),
      h.rest off (by omega)]
  · rw [h.numRows]
    exact h.bits.set (by omega) v
  · rw [hred, List.length_append, List.length_append, List.length_singleton,
      List.length_singleton, Nat.mul_succ]
    omega

theorem Filling.pushNull {rows : List (Option T)}
    {flushed : List Page} {cur : Page} {w : ColumnInserter T}
    (h : Filling fresh rows flushed cur w)
    (hfit : dataBegin T + Pod.size T * rows.reduceOption.length + (rows.length / 8 + 1) ≤ 8192) :
    Filling fresh (rows ++ [none]) flushed cur
      { w with
        bitmap := w.bitmap.modify (w.numRows / 8) (clearBit (w.numRows % 8))
        numRows := (w.numRows + 1) % 65536 } := by
  have hfits := h.fits
  have h4 := dataBegin_ge T
  have hred : (rows ++ [none]).reduceOption = rows.reduceOption := by
    simp [List.reduceOption_append]
  refine ⟨h.column, fun hr => h.unused (hred ▸ hr), ?_, ?_, fun k hk => ?_, h.rest, ?_, ?_⟩
  · show (w.numRows + 1) % 65536 = _
    rw [h.numRows, Nat.mod_eq_of_lt (by omega), List.length_append, List.length_singleton]
  · rw [hred]
    exact h.dataEnd
  · simp only [hred]
    exact h.values k (hred ▸ hk)
  · rw [h.numRows]
    exact h.bits.unset (by omega)
  · rw [hred, List.length_append, List.length_singleton]
    omega

theorem Inv.of_filling {chunks : List (List (Option T))} {rows rows' : List (Option T)}
    {flushed : List Page} {cur cur' : Page} {w w' : ColumnInserter T}
    (h : Inv fresh chunks rows flushed cur w) (h' : Filling fresh rows' flushed cur' w') :
    Inv fresh chunks rows' flushed cur' w' :=
  ⟨h', h.pages, h.full⟩

/-- `w` has been given the values `all`. -/
def Wrote (fresh : Nat → Page) (all : List (Option T)) (w : ColumnInserter T) : Prop :=
  ∃ chunks rows flushed cur, all = chunks.flatten ++ rows ∧ Inv fresh chunks rows flushed cur w

theorem wrote_empty (fresh : Nat → Page) (hs : Pod.size T = 4) :
    Wrote fresh ([] : List (Option T)) {} := by
  refine ⟨[], [], [], _, rfl, filling_nil ColumnPages.at_empty rfl rfl rfl rfl ?_, .nil, by simp⟩
  simp [dataBegin, hs]

theorem Wrote.put {all : List (Option T)} {w : ColumnInserter T} (h : Wrote fresh all w)
    (hs : Pod.size T = 4) (row : Option T) : Wrote fresh (all ++ [row]) (w.put fresh row) := by
  obtain ⟨chunks, rows, flushed, cur, rfl, h⟩ := h
  have hbegin : dataBegin T = 4 := by simp [dataBegin, hs]
  cases row with
  | some v =>
    show Wrote fresh _ (w.insert fresh v)
    unfold ColumnInserter.insert
    split
    · next hfull =>
      rw [h.numRows, h.dataEnd] at hfull
      obtain ⟨flushed', cur', h'⟩ := h.flush (by omega) (by
        unfold PageFull
        rw [Nat.mul_comm _ (Pod.size T), Nat.mul_succ]
        omega)
      refine ⟨chunks ++ [rows], [some v], _, _, by simp, h'.of_filling (h'.pushValue v ?_)⟩
      simp [hbegin, hs]
    · next hfit =>
      rw [h.numRows, h.dataEnd] at hfit
      exact ⟨chunks, rows ++ [some v], _, _, by simp, h.of_filling (h.pushValue v (by omega))⟩
  | none =>
    show Wrote fresh _ (w.insertNull fresh)
    unfold ColumnInserter.insertNull
    split
    · next hfull =>
      rw [h.numRows, h.dataEnd] at hfull
      obtain ⟨flushed', cur', h'⟩ := h.flush (by omega) (by
        unfold PageFull
        rw [Nat.mul_comm _ (Pod.size T), Nat.mul_succ]
        omega)
      refine ⟨chunks ++ [rows], [none], _, _, by simp, h'.of_filling (h'.pushNull ?_)⟩
      simp [hbegin]
    · next hfit =>
      rw [h.numRows, h.dataEnd] at hfit
      exact ⟨chunks, rows ++ [none], _, _, by simp, h.of_filling (h.pushNull (by omega))⟩

theorem Wrote.foldl (calls : List (Option T)) {all : List (Option T)} {w : ColumnInserter T}
    (h : Wrote fresh all w) (hs : Pod.size T = 4) :
    Wrote fresh (all ++ calls) (calls.foldl (ColumnInserter.put fresh) w) := by
  induction calls generalizing all w with
  | nil => simpa using h
  | cons row calls ih =>
    rw [List.foldl_cons, List.append_cons]
    exact ih (h.put hs row)

/-- The pages that a sequence of calls leaves. Between the values and the bitmap of the last one
are the bytes that it was made with. -/
theorem write_split (fresh : Nat → Page) (hs : Pod.size T = 4) (calls : List (Option T)) :
    ∃ chunks last flushed, calls = chunks.flatten ++ last ∧
      (∀ c ∈ chunks, PageFull T (dataBegin T) c) ∧
      List.Forall₂ (FixedPage (dataBegin T)) chunks flushed ∧
      (last = [] ∧ write fresh calls = flushed ∨ last ≠ [] ∧
        ∃ p, write fresh calls = flushed ++ [p] ∧
        FixedPage (dataBegin T) last p ∧
        ∀ off, dataBegin T + 4 * last.reduceOption.length ≤ off →
          off < 8192 - (last.length + 7) / 8 → p.byte off = (fresh flushed.length).byte off) := by
  obtain ⟨chunks, last, flushed, cur, hall, h⟩ := Wrote.foldl calls (wrote_empty fresh hs) hs
  rw [List.nil_append] at hall
  refine ⟨chunks, last, flushed, hall, h.full, h.pages, ?_⟩
  unfold write finalize
  simp only [h.numRows]
  by_cases hlast : last = []
  · exact .inl (by simpa [hlast] using h.unused (by simp [hlast]))
  · simp only [List.length_eq_zero_iff, hlast, not_false_eq_true, if_true, ne_eq]
    refine .inr ⟨trivial, _, h.column.modifyPage_pages _, h.page (by omega), fun off hlo hhi => ?_⟩
    have hsize : Pod.size UInt16 = 2 := rfl
    have hge := dataBegin_ge T
    have hend := h.dataEnd
    rw [hs] at hend
    unfold finishPage
    rw [Buf.byte_memcpy_outside _ (.inl (by rw [h.numRows]; omega)), Buf.setU16,
      Buf.write, Buf.byte_memcpy_outside _ (.inr (by rw [Pod.length_toBytes]; omega)), Buf.setU16,
      Buf.write, Buf.byte_memcpy_outside _ (.inr (by rw [Pod.length_toBytes]; omega)),
      h.rest off (by omega)]

/-- The pages that a sequence of calls leaves hold the inserted rows. -/
theorem write_ok (fresh : Nat → Page) (hs : Pod.size T = 4) (calls : List (Option T)) :
    FixedColumn (dataBegin T) calls (write fresh calls) := by
  obtain ⟨chunks, last, flushed, hall, hfull, hp, ⟨hlast, hw⟩ | ⟨hlast, p, hw, hpage, -⟩⟩ :=
    write_split fresh hs calls
  · exact ⟨chunks, last, hall, hfull, by rw [if_pos hlast, hw]; exact hp⟩
  · refine ⟨chunks, last, hall, hfull, ?_⟩
    rw [if_neg hlast, hw]
    exact List.rel_append hp (.cons hpage .nil)

/-- The values and the bitmap of the page that is filled stay apart, and its row count has room in
16 bits. -/
theorem Wrote.room {all : List (Option T)} {w : ColumnInserter T} (h : Wrote fresh all w) :
    w.dataEnd + (w.numRows + 7) / 8 ≤ 8192 ∧ w.numRows + 1 < 65536 := by
  obtain ⟨chunks, rows, flushed, cur, -, h⟩ := h
  have hfits := h.fits
  have h4 := dataBegin_ge T
  rw [h.dataEnd, h.numRows]
  exact ⟨hfits, by omega⟩

/-- Reading the column back gives the inserted values and NULLs. While it is written and in its
pages the row count stays below 16 bits, and the values end before the bitmap. -/
theorem decode_int32 (fresh : Nat → Page) (calls : List (Option Int32)) :
    fromColumnar { numRows := calls.length, columns := [⟨.int32, write fresh calls⟩] } =
        .ok ⟨calls.map fun call => [cellOf Data.int32 call], [.int32]⟩ ∧
      (∃ chunks, calls = chunks.flatten ∧ List.Forall₂ (fun rows (p : Page) =>
        rows.length < 65536 ∧ p.u16 0 = rows.length ∧ p.u16 2 = rows.reduceOption.length ∧
          4 + 4 * p.u16 2 ≤ 8192 - (p.u16 0 + 7) / 8) chunks (write fresh calls)) ∧
      ∀ n, (((calls.take n).foldl (put fresh) {}).numRows + 1 < 65536 ∧
        ((calls.take n).foldl (put fresh) {}).dataEnd ≤
          8192 - (((calls.take n).foldl (put fresh) {}).numRows + 7) / 8) := by
  obtain ⟨chunks, hcalls, hp⟩ := (write_ok fresh rfl calls).chunks
  refine ⟨?_, ⟨chunks, hcalls, hp.imp fun rows p h => ?_⟩, fun n => ?_⟩
  · have hholds : ColumnHolds ⟨.int32, write fresh calls⟩ (calls.map (cellOf Data.int32)) :=
      ⟨chunks, by rw [hcalls], hp⟩
    have htable := fromColumnar_single hholds
    rwa [List.length_map, List.map_map] at htable
  · have hfits := h.fits
    have hbegin : dataBegin Int32 = 4 := rfl
    have hsize : Pod.size Int32 = 4 := rfl
    rw [hbegin, hsize] at hfits
    rw [h.numRows, h.numNonNull]
    exact ⟨by omega, rfl, rfl, by omega⟩
  · obtain ⟨hdata, hrows⟩ := (Wrote.foldl (calls.take n) (wrote_empty fresh rfl) rfl).room
    exact ⟨hrows, by omega⟩

end ColumnInserter

/-! ## Strings -/

namespace StringInserter

variable {fresh : Nat → Page}

/-- One turn of the loop of `save_long_string`. -/
theorem saveLongString_step {value : List UInt8} {flushed : List Page} {cur : Page}
    {column : ColumnPages} (hc : column.At fresh flushed cur) {offset : Nat} (firstPage : Bool)
    (h : offset < value.length) :
    ∃ chunk page column' cur' n, 0 < n ∧ value.drop offset = chunk ++ value.drop (offset + n) ∧
      LongPage (if firstPage then 0xffff else 0xfffe) chunk page ∧
      column'.At fresh (flushed ++ [page]) cur' ∧ column'.pages = flushed ++ [page] ∧
      saveLongString fresh value column offset firstPage =
        saveLongString fresh value column' (offset + n) false := by
  let n := min (value.length - offset) (8192 - 4)
  have hlen : ((value.drop offset).take n).length = n := by
    simp [n]
  refine ⟨(value.drop offset).take n, _, _, _, n, by omega, ?_,
    longPage_ok cur ?_ hlen (by omega), hc.nextPage fun page =>
      longPage page (if firstPage then 0xffff else 0xfffe) n ((value.drop offset).take n),
    hc.modifyPage_pages _, ?_⟩
  · rw [← List.drop_drop, List.take_append_drop]
  · split <;> omega
  · rw [saveLongString, if_pos h]

theorem saveLongString_rest (value : List UInt8) {flushed : List Page} {cur : Page}
    {column : ColumnPages} (hc : column.At fresh flushed cur) (hpages : column.pages = flushed)
    (offset : Nat) : ∃ cs ps cur', value.drop offset = cs.flatten ∧
      List.Forall₂ (LongPage 0xfffe) cs ps ∧
      (saveLongString fresh value column offset false).At fresh (flushed ++ ps) cur' ∧
      (saveLongString fresh value column offset false).pages = flushed ++ ps := by
  induction hn : value.length - offset using Nat.strong_induction_on
    generalizing flushed cur column offset with
  | _ n ih =>
    by_cases h : offset < value.length
    · obtain ⟨chunk, page, column', cur', k, hk, hdrop, hpage, hc', hp', hsave⟩ :=
        saveLongString_step hc false h
      obtain ⟨cs, ps, cur'', hcs, hps, hat, hout⟩ :=
        ih (value.length - (offset + k)) (by omega) hc' hp' (offset + k) rfl
      rw [List.append_assoc] at hat hout
      refine ⟨chunk :: cs, page :: ps, cur'', ?_, .cons hpage hps, ?_, ?_⟩
      · rw [hdrop, hcs, List.flatten_cons]
      · rw [hsave]
        exact hat
      · rw [hsave]
        exact hout
    · refine ⟨[], [], cur, ?_, .nil, ?_, ?_⟩
      · rw [List.drop_eq_nil_of_le (by omega)]
        rfl
      · unfold saveLongString
        rw [if_neg h, List.append_nil]
        exact hc
      · unfold saveLongString
        rw [if_neg h, List.append_nil]
        exact hpages

theorem saveLongString_ok {value : List UInt8} (hv : value ≠ []) {flushed : List Page}
    {cur : Page} {column : ColumnPages} (hc : column.At fresh flushed cur) :
    ∃ ps cur', LongPages value ps ∧
      (saveLongString fresh value column 0 true).At fresh (flushed ++ ps) cur' ∧
      (saveLongString fresh value column 0 true).pages = flushed ++ ps := by
  obtain ⟨chunk, page, column', cur', k, hk, hdrop, hpage, hc', hp', hsave⟩ :=
    saveLongString_step hc true (List.length_pos_iff.mpr hv)
  obtain ⟨cs, ps, cur'', hcs, hps, hat, hout⟩ := saveLongString_rest value hc' hp' (0 + k)
  rw [List.append_assoc] at hat hout
  refine ⟨page :: ps, cur'', ⟨chunk, cs, page, ps, rfl, ?_, hpage, hps⟩, ?_, ?_⟩
  · rw [← hcs, ← hdrop]
    rfl
  · rw [hsave]
    exact hat
  · rw [hsave]
    exact hout

/-- The inserter has flushed `flushed`, which hold `segs`, and has `rows` on the page `cur`: their
offsets are on the page, their bytes and bits are staged. -/
structure Inv (fresh : Nat → Page) (segs : List Segment) (rows : List (Option (List UInt8)))
    (flushed : List Page) (cur : Page) (w : StringInserter) : Prop where
  column : w.column.At fresh flushed cur
  unused : rows.reduceOption = [] → w.column.pages = flushed
  pages : StringPages segs flushed
  nonempty : ∀ seg ∈ segs, seg.values ≠ []
  numRows : w.numRows = rows.length
  dataSize : w.dataSize = rows.reduceOption.flatten.length
  offsetEnd : w.offsetEnd = 4 + 2 * rows.reduceOption.length
  offsets : ∀ k < rows.reduceOption.length,
    cur.u16 (4 + 2 * k) = (rows.reduceOption.take (k + 1)).flatten.length
  data : w.data.slice 0 rows.reduceOption.flatten.length = rows.reduceOption.flatten
  bits : StagedBits rows w.bitmap
  fits : 4 + 2 * rows.reduceOption.length + rows.reduceOption.flatten.length +
    (rows.length + 7) / 8 ≤ 8192

/-- Writing the counts, the bytes and the bitmap makes the page hold its rows. -/
theorem Inv.page {segs : List Segment} {rows : List (Option (List UInt8))} {flushed : List Page}
    {cur : Page} {w : StringInserter} (h : Inv fresh segs rows flushed cur w) :
    StringPage rows (w.finishPage cur) := by
  have hfits := h.fits
  have hcount : (4 + 2 * rows.reduceOption.length - 4) / 2 = rows.reduceOption.length := by omega
  unfold finishPage
  rw [h.numRows, h.dataSize, h.offsetEnd, h.data, hcount]
  refine ⟨?_, ?_, fun i hi => h.bits.getBitmap (by omega) _ hi, fun k hk => ?_, ?_, hfits⟩
  · rw [Buf.u16_memcpy_outside _ (by omega), Buf.u16_memcpy_outside _ (by omega),
      Buf.u16_setU16_outside _ (by omega), Buf.u16_setU16_same _ (by omega),
      Nat.mod_eq_of_lt (by omega)]
  · rw [Buf.u16_memcpy_outside _ (by omega), Buf.u16_memcpy_outside _ (by omega),
      Buf.u16_setU16_same _ (by omega), Nat.mod_eq_of_lt (by omega)]
  · rw [Buf.u16_memcpy_outside _ (by omega), Buf.u16_memcpy_outside _ (by omega),
      Buf.u16_setU16_outside _ (by omega), Buf.u16_setU16_outside _ (by omega), h.offsets k hk]
  · rw [Buf.slice_memcpy_outside _ (by omega), Buf.slice_memcpy_same _ (by omega)]

theorem inv_flushed {segs : List Segment} {flushed : List Page} {cur : Page} {w : StringInserter}
    (hp : StringPages segs flushed) (hne : ∀ seg ∈ segs, seg.values ≠ [])
    (hc : w.column.At fresh flushed cur) (hpages : w.column.pages = flushed) (hn : w.numRows = 0)
    (hd : w.dataSize = 0)
    (ho : w.offsetEnd = 4) : Inv fresh segs [] flushed cur w :=
  ⟨hc, fun _ => hpages, hp, hne, hn, hd, ho, by simp, by simp [Buf.slice], by simp [StagedBits],
    by simp⟩

theorem Inv.flush {segs : List Segment} {rows : List (Option (List UInt8))}
    {flushed : List Page} {cur : Page} {w : StringInserter}
    (h : Inv fresh segs rows flushed cur w) (hrows : rows ≠ []) :
    ∃ flushed' cur', Inv fresh (segs ++ [.short rows]) [] flushed' cur' (w.savePage fresh) :=
  ⟨_, _, inv_flushed (h.pages.concatShort h.page) (nonempty_concat h.nonempty hrows)
    (h.column.nextPage _) (h.column.modifyPage_pages _) rfl rfl rfl⟩

theorem Inv.pushString {segs : List Segment} {rows : List (Option (List UInt8))}
    {flushed : List Page} {cur : Page} {w : StringInserter}
    (h : Inv fresh segs rows flushed cur w) (value : List UInt8)
    (hfit : 4 + 2 * rows.reduceOption.length + 2 + rows.reduceOption.flatten.length +
      value.length + rows.length / 8 + 1 ≤ 8192) :
    Inv fresh segs (rows ++ [some value]) flushed
      (cur.setU16 w.offsetEnd ((w.dataSize + value.length) % 65536))
      { column := w.column.modifyPage fresh fun page =>
          page.setU16 w.offsetEnd ((w.dataSize + value.length) % 65536)
        data := w.data.memcpy w.dataSize value
        dataSize := (w.dataSize + value.length) % 65536
        offsetEnd := w.offsetEnd + 2
        bitmap := w.bitmap.modify (w.numRows / 8) (setBit (w.numRows % 8))
        numRows := (w.numRows + 1) % 65536 } := by
  have hfits := h.fits
  have hred : (rows ++ [some value]).reduceOption = rows.reduceOption ++ [value] := by
    simp [List.reduceOption_append]
  have hflat : (rows ++ [some value]).reduceOption.flatten =
      rows.reduceOption.flatten ++ value := by
    rw [hred, List.flatten_append, List.flatten_singleton]
  have hsize : (w.dataSize + value.length) % 65536 =
      (rows.reduceOption.flatten ++ value).length := by
    rw [List.length_append, h.dataSize, Nat.mod_eq_of_lt (by omega)]
  refine ⟨h.column.modifyPage fun page =>
      page.setU16 w.offsetEnd ((w.dataSize + value.length) % 65536),
    by simp [hred], h.pages, h.nonempty, ?_, ?_, ?_, fun k hk => ?_, ?_, ?_, ?_⟩
  · show (w.numRows + 1) % 65536 = _
    rw [h.numRows, Nat.mod_eq_of_lt (by omega), List.length_append, List.length_singleton]
  · rw [hflat]
    exact hsize
  · show w.offsetEnd + 2 = _
    rw [hred, h.offsetEnd, List.length_append, List.length_singleton]
    omega
  · rw [hsize, h.offsetEnd, hred]
    rcases Nat.lt_succ_iff_lt_or_eq.mp (by simpa [hred] using hk) with hlt | rfl
    · rw [Buf.u16_setU16_outside _ (by omega), h.offsets k hlt,
        List.take_append_of_le_length hlt]
    · rw [Buf.u16_setU16_same _ (by omega), List.take_of_length_le (by simp), ← hred, hflat,
        Nat.mod_eq_of_lt]
      rw [List.length_append]
      omega
  · show (w.data.memcpy w.dataSize value).slice 0 _ = _
    rw [hflat, List.length_append, Buf.slice_add, h.dataSize, Nat.zero_add,
      Buf.slice_memcpy_outside _ (by omega), h.data, Buf.slice_memcpy_same _ (by omega)]
  · rw [h.numRows]
    exact h.bits.set (by omega) value
  · rw [hflat, hred, List.length_append, List.length_append, List.length_append,
      List.length_singleton, List.length_singleton]
    omega

theorem Inv.pushNull {segs : List Segment} {rows : List (Option (List UInt8))}
    {flushed : List Page} {cur : Page} {w : StringInserter}
    (h : Inv fresh segs rows flushed cur w)
    (hfit : 4 + 2 * rows.reduceOption.length + rows.reduceOption.flatten.length +
      rows.length / 8 + 1 ≤ 8192) :
    Inv fresh segs (rows ++ [none]) flushed cur
      { w with
        bitmap := w.bitmap.modify (w.numRows / 8) (clearBit (w.numRows % 8))
        numRows := (w.numRows + 1) % 65536 } := by
  have hfits := h.fits
  have hred : (rows ++ [none]).reduceOption = rows.reduceOption := by
    simp [List.reduceOption_append]
  refine ⟨h.column, fun hr => h.unused (hred ▸ hr), h.pages, h.nonempty, ?_, hred ▸ h.dataSize,
    hred ▸ h.offsetEnd, hred ▸ h.offsets, hred ▸ h.data, ?_, ?_⟩
  · show (w.numRows + 1) % 65536 = _
    rw [h.numRows, Nat.mod_eq_of_lt (by omega), List.length_append, List.length_singleton]
  · rw [h.numRows]
    exact h.bits.unset (by omega)
  · rw [hred, List.length_append, List.length_singleton]
    omega

/-- `w` has been given the values `all`. -/
def Wrote (fresh : Nat → Page) (all : List (Option (List UInt8))) (w : StringInserter) : Prop :=
  ∃ segs rows flushed cur, all = segs.flatMap Segment.values ++ rows ∧
    Inv fresh segs rows flushed cur w

theorem wrote_empty (fresh : Nat → Page) : Wrote fresh [] {} :=
  ⟨[], [], [], _, rfl, inv_flushed .nil (by simp) ColumnPages.at_empty rfl rfl rfl rfl⟩

theorem Wrote.insert {all : List (Option (List UInt8))} {w : StringInserter}
    (h : Wrote fresh all w) (value : List UInt8) :
    Wrote fresh (all ++ [some value]) (w.insert fresh value) := by
  obtain ⟨segs, rows, flushed, cur, rfl, h⟩ := h
  unfold StringInserter.insert
  split
  · next hlong =>
    -- The rows at hand are flushed first, so that the long string comes after them.
    have hflushed : ∃ (segs' : List Segment) (flushed' : List Page) (cur' : Page),
        segs.flatMap Segment.values ++ rows = segs'.flatMap Segment.values ∧
        Inv fresh segs' [] flushed' cur' (if w.numRows > 0 then w.savePage fresh else w) := by
      split
      · next hn =>
        have hrows : rows ≠ [] := List.ne_nil_of_length_pos (h.numRows ▸ hn)
        obtain ⟨flushed', cur', h'⟩ := h.flush hrows
        exact ⟨segs ++ [.short rows], flushed', cur', by simp [Segment.values], h'⟩
      · next hn =>
        have hrows : rows = [] := List.length_eq_zero_iff.mp (by have := h.numRows; omega)
        subst hrows
        exact ⟨segs, flushed, cur, by simp, h⟩
    obtain ⟨segs', flushed', cur', hsegs, h'⟩ := hflushed
    obtain ⟨ps, cur'', hps, hat, hout⟩ := saveLongString_ok
      (List.length_pos_iff.mp (Nat.lt_of_le_of_lt (Nat.zero_le _) hlong)) h'.column
    refine ⟨segs' ++ [.long value], [], flushed' ++ ps, cur'', ?_,
      inv_flushed (h'.pages.concatLong hlong hps)
        (nonempty_concat h'.nonempty (by simp [Segment.values])) hat hout h'.numRows h'.dataSize
        h'.offsetEnd⟩
    rw [hsegs]
    simp [Segment.values]
  · next hshort =>
    split
    · next hfull =>
      rw [h.numRows, h.dataSize, h.offsetEnd] at hfull
      have hrows : rows ≠ [] := fun hnil => by
        simp [hnil] at hfull
        omega
      obtain ⟨flushed', cur', h'⟩ := h.flush hrows
      refine ⟨segs ++ [.short rows], [some value], _, _, by simp [Segment.values],
        h'.pushString value ?_⟩
      simp
      omega
    · next hfit =>
      rw [h.numRows, h.dataSize, h.offsetEnd] at hfit
      exact ⟨segs, rows ++ [some value], _, _, by simp, h.pushString value (by omega)⟩

theorem Wrote.insertNull {all : List (Option (List UInt8))} {w : StringInserter}
    (h : Wrote fresh all w) : Wrote fresh (all ++ [none]) (w.insertNull fresh) := by
  obtain ⟨segs, rows, flushed, cur, rfl, h⟩ := h
  unfold StringInserter.insertNull
  split
  · next hfull =>
    rw [h.numRows, h.dataSize, h.offsetEnd] at hfull
    have hrows : rows ≠ [] := fun hnil => by simp [hnil] at hfull
    obtain ⟨flushed', cur', h'⟩ := h.flush hrows
    exact ⟨segs ++ [.short rows], [none], _, _, by simp [Segment.values], h'.pushNull (by simp)⟩
  · next hfit =>
    rw [h.numRows, h.dataSize, h.offsetEnd] at hfit
    exact ⟨segs, rows ++ [none], _, _, by simp, h.pushNull (by omega)⟩

theorem Wrote.foldl (calls : List (Option (List UInt8))) {all : List (Option (List UInt8))}
    {w : StringInserter} (h : Wrote fresh all w) :
    Wrote fresh (all ++ calls) (calls.foldl (StringInserter.put fresh) w) := by
  induction calls generalizing all w with
  | nil => simpa using h
  | cons call calls ih =>
    rw [List.foldl_cons, List.append_cons]
    cases call with
    | none => exact ih h.insertNull
    | some value => exact ih (h.insert value)

/-- The pages that a sequence of calls leaves hold the inserted strings and NULLs. -/
theorem write_ok (fresh : Nat → Page) (calls : List (Option (List UInt8))) :
    ∃ segs, calls = segs.flatMap Segment.values ∧ StringPages segs (write fresh calls) ∧
      ∀ seg ∈ segs, seg.values ≠ [] := by
  obtain ⟨segs, last, flushed, cur, hall, h⟩ := Wrote.foldl calls (wrote_empty fresh)
  rw [List.nil_append] at hall
  unfold write finalize
  simp only [h.numRows]
  by_cases hlast : last = []
  · refine ⟨segs, by simp [hall, hlast], ?_, h.nonempty⟩
    simpa [hlast, h.unused (by simp [hlast])] using h.pages
  · simp only [List.length_eq_zero_iff, hlast, not_false_eq_true, if_true, ne_eq]
    have hpages : ((calls.foldl (put fresh) {}).savePage fresh).column.pages = _ :=
      h.column.modifyPage_pages _
    rw [hpages]
    exact ⟨segs ++ [.short last], by simp [hall, Segment.values], h.pages.concatShort h.page,
      nonempty_concat h.nonempty (show Segment.values (.short last) ≠ [] from hlast)⟩

/-- Reading the column back gives the inserted strings and NULLs. Its ordinary pages keep offsets,
bytes and bitmap apart, with a row count below the markers. -/
theorem decode_write (fresh : Nat → Page) (calls : List (Option (List UInt8))) :
    fromColumnar { numRows := calls.length, columns := [⟨.varchar, write fresh calls⟩] } =
        .ok ⟨calls.map fun call => [cellOf Data.varchar call], [.varchar]⟩ ∧
      ∃ segs, calls = segs.flatMap Segment.values ∧ StringPages segs (write fresh calls) ∧
        ∀ p ∈ write fresh calls,
          (∃ rows, .short rows ∈ segs ∧ StringPage rows p ∧ p.u16 0 < 0xfffe) ∨
          ∃ s, .long s ∈ segs ∧ (p.u16 0 = 0xffff ∨ p.u16 0 = 0xfffe) := by
  obtain ⟨segs, hcalls, hp, -⟩ := write_ok fresh calls
  refine ⟨?_, segs, hcalls, hp, fun p hmem => ?_⟩
  · have hholds : ColumnHolds ⟨.varchar, write fresh calls⟩ (calls.map (cellOf Data.varchar)) :=
      ⟨segs, by rw [hcalls], hp⟩
    have htable := fromColumnar_single hholds
    rwa [List.length_map, List.map_map] at htable
  · rcases hp.page_of_mem hmem with ⟨rows, hr, h⟩ | hlong
    · exact .inl ⟨rows, hr, h, h.numRows_lt⟩
    · exact .inr hlong

end StringInserter

end HashJoin
