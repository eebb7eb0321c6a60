import HashJoin.ToColumnar

/-!
# Writing and reading back a columnar table

What the pages written by `to_columnar` hold, and that `from_columnar` undoes `to_columnar`.
-/

namespace HashJoin

open Bytes

/-! ## Fixed-width columns -/

/-- No further value fits on a page with these rows. -/
def PageFull (T : Type) [Pod T] (dataBegin : Nat) (rows : List (Option T)) : Prop :=
  8192 < dataBegin + (rows.reduceOption.length + 1) * Pod.size T + (rows.length / 8 + 1)

namespace FixedWriter

variable {T : Type} [Pod T] {fresh : Nat → Page} {dataBegin : Nat}

/-- The writer has flushed the pages of `chunks` and holds `rows`. -/
structure Inv (dataBegin : Nat) (chunks : List (List (Option T))) (rows : List (Option T))
    (w : FixedWriter T) : Prop where
  pages : List.Forall₂ (FixedPage dataBegin) chunks w.pages
  full : ∀ c ∈ chunks, PageFull T dataBegin c
  numRows : w.numRows = rows.length
  data : w.data = rows.reduceOption
  bitmap : BitmapOk rows w.bitmap
  fits : dataBegin + rows.reduceOption.length * Pod.size T + (rows.length + 7) / 8 ≤ 8192

theorem inv_empty (h : dataBegin ≤ 8192) : Inv dataBegin [] ([] : List (Option T)) {} :=
  ⟨.nil, by simp, rfl, rfl, .nil, by simpa using h⟩

theorem Inv.page {chunks : List (List (Option T))} {rows : List (Option T)} {w : FixedWriter T}
    (h : Inv dataBegin chunks rows w) (h4 : 4 ≤ dataBegin) :
    FixedPage dataBegin rows (w.page fresh dataBegin) := by
  have hfits := h.fits
  have hbm := h.bitmap.length
  have hdata : (rows.reduceOption.flatMap Pod.toBytes).length =
      rows.reduceOption.length * Pod.size T := by
    rw [length_flatMap_toBytes, Nat.mul_comm]
  unfold FixedWriter.page
  rw [h.numRows, h.data]
  refine ⟨?_, ?_, fun i hi => ?_, fun k hk => ?_, by rwa [Nat.mul_comm (Pod.size T)]⟩
  · rw [Buf.u16_memcpy_outside _ (by omega), Buf.u16_memcpy_outside _ (by omega),
      Buf.u16_setU16_outside _ (by omega), Buf.u16_setU16_same _ (by omega),
      Nat.mod_eq_of_lt (by omega)]
  · have hle : rows.reduceOption.length ≤ rows.length := List.reduceOption_length_le rows
    rw [Buf.u16_memcpy_outside _ (by omega), Buf.u16_memcpy_outside _ (by omega),
      Buf.u16_setU16_same _ (by omega), Nat.mod_eq_of_lt (by omega)]
  · rw [getBitmap_memcpy _ hbm (by omega) hi, h.bitmap.bits i hi]
  · have hmul : Pod.size T * k + Pod.size T ≤ rows.reduceOption.length * Pod.size T := by
      rw [← Nat.mul_succ, Nat.mul_comm]
      exact Nat.mul_le_mul_right _ hk
    rw [Buf.read_memcpy_outside _ (by omega), Buf.read_memcpy_flatMap _ hk (by
      rw [Nat.mul_comm]
      omega)]

theorem Inv.flush {chunks : List (List (Option T))} {rows : List (Option T)} {w : FixedWriter T}
    (h : Inv dataBegin chunks rows w) (h4 : 4 ≤ dataBegin) (hfull : PageFull T dataBegin rows) :
    Inv dataBegin (chunks ++ [rows]) [] (w.savePage fresh dataBegin) := by
  refine ⟨List.rel_append h.pages (.cons (h.page h4) .nil), fun c hc => ?_, rfl, rfl,
    .nil, ?_⟩
  · rcases List.mem_append.mp hc with hc | hc
    · exact h.full c hc
    · rw [List.mem_singleton.mp hc]
      exact hfull
  · have := h.fits
    simp
    omega

/-- `w` has been given the values `all`. -/
def Wrote (dataBegin : Nat) (all : List (Option T)) (w : FixedWriter T) : Prop :=
  ∃ chunks rows, all = chunks.flatten ++ rows ∧ Inv dataBegin chunks rows w

theorem Wrote.putValue {all : List (Option T)} {w : FixedWriter T} (h : Wrote dataBegin all w)
    (h4 : 4 ≤ dataBegin) (hroom : dataBegin + Pod.size T + 1 ≤ 8192) (v : T) :
    Wrote dataBegin (all ++ [some v]) (w.putValue fresh dataBegin v) := by
  obtain ⟨chunks, rows, rfl, h⟩ := h
  -- Once there is room the value goes to the page under construction.
  have push : ∀ {chunks rows} {w : FixedWriter T}, Inv dataBegin chunks rows w →
      dataBegin + (rows.reduceOption.length + 1) * Pod.size T + (rows.length / 8 + 1) ≤ 8192 →
      Inv dataBegin chunks (rows ++ [some v]) { w with
        bitmap := setBitmap w.bitmap w.numRows
        data := w.data ++ [v]
        numRows := (w.numRows + 1) % 65536 } := by
    intro chunks rows w h hfit
    have hfits := h.fits
    refine ⟨h.pages, h.full, ?_, ?_, ?_, ?_⟩
    · rw [h.numRows, Nat.mod_eq_of_lt (by omega), List.length_append, List.length_singleton]
    · simp [List.reduceOption_append, h.data]
    · rw [h.numRows]
      exact h.bitmap.set v
    · simp only [List.reduceOption_append, List.length_append, List.reduceOption_singleton,
        Option.toList_some, List.length_singleton]
      omega
  unfold FixedWriter.putValue
  simp only [h.numRows, h.data]
  split
  · next hfull =>
    refine ⟨chunks ++ [rows], [some v], by simp, push (h.flush h4 hfull) ?_⟩
    simp
    omega
  · next hfit => exact ⟨chunks, rows ++ [some v], by simp, push h (by omega)⟩

theorem Wrote.putNull {all : List (Option T)} {w : FixedWriter T} (h : Wrote dataBegin all w)
    (h4 : 4 ≤ dataBegin) (hroom : dataBegin + Pod.size T + 1 ≤ 8192) :
    Wrote dataBegin (all ++ [none]) (w.putNull fresh dataBegin) := by
  obtain ⟨chunks, rows, rfl, h⟩ := h
  have push : ∀ {chunks rows} {w : FixedWriter T}, Inv dataBegin chunks rows w →
      dataBegin + rows.reduceOption.length * Pod.size T + (rows.length / 8 + 1) ≤ 8192 →
      Inv dataBegin chunks (rows ++ [none]) { w with
        bitmap := unsetBitmap w.bitmap w.numRows
        numRows := (w.numRows + 1) % 65536 } := by
    intro chunks rows w h hfit
    have hfits := h.fits
    refine ⟨h.pages, h.full, ?_, ?_, ?_, ?_⟩
    · rw [h.numRows, Nat.mod_eq_of_lt (by omega), List.length_append, List.length_singleton]
    · simp [List.reduceOption_append, h.data]
    · rw [h.numRows]
      exact h.bitmap.unset
    · simp only [List.reduceOption_append, List.length_append, List.reduceOption_singleton,
        Option.toList_none, List.length_singleton, List.length_nil, Nat.add_zero]
      omega
  unfold FixedWriter.putNull
  simp only [h.numRows, h.data]
  split
  · next hfull =>
    have hfull' : PageFull T dataBegin rows := by
      have : rows.reduceOption.length * Pod.size T ≤ (rows.reduceOption.length + 1) * Pod.size T :=
        Nat.mul_le_mul_right _ (Nat.le_succ _)
      unfold PageFull
      omega
    refine ⟨chunks ++ [rows], [none], by simp, push (h.flush h4 hfull') ?_⟩
    simp
    omega
  · next hfit => exact ⟨chunks, rows ++ [none], by simp, push h (by omega)⟩

/-- Visiting values of the column's type one after another. -/
theorem Wrote.foldl {get : Data → Option T} {mk : T → Data} (hget : ∀ v, get (mk v) = some v)
    (hmk : ∀ v, mk v ≠ .null) (h4 : 4 ≤ dataBegin) (hroom : dataBegin + Pod.size T + 1 ≤ 8192)
    (fresh : Nat → Page) (rows all : List (Option T)) {w : FixedWriter T}
    (h : Wrote dataBegin all w) :
    Wrote dataBegin (all ++ rows)
      ((rows.map (cellOf mk)).foldl (visit fresh dataBegin get) w) := by
  induction rows generalizing all w with
  | nil => simpa using h
  | cons row rows ih =>
    rw [List.map_cons, List.foldl_cons, List.append_cons]
    apply ih (all ++ [row])
    cases row with
    | none => exact h.putNull h4 hroom
    | some v =>
      have hvisit : w.visit fresh dataBegin get (mk v) = w.putValue fresh dataBegin v := by
        unfold visit
        split
        · next hn => exact absurd hn (hmk v)
        · rw [hget]
      unfold cellOf
      rw [hvisit]
      exact h.putValue h4 hroom v

end FixedWriter

/-- Pages of a fixed-width column: every page but the last is full. -/
structure FixedColumn {T : Type} [Pod T] (dataBegin : Nat) (rows : List (Option T))
    (pages : List Page) : Prop where
  split : ∃ chunks last, rows = chunks.flatten ++ last ∧ (∀ c ∈ chunks, PageFull T dataBegin c) ∧
    if last = [] then List.Forall₂ (FixedPage dataBegin) chunks pages
    else List.Forall₂ (FixedPage dataBegin) (chunks ++ [last]) pages

theorem FixedColumn.chunks {T : Type} [Pod T] {dataBegin : Nat} {rows : List (Option T)}
    {pages : List Page} (h : FixedColumn dataBegin rows pages) :
    ∃ chunks, rows = chunks.flatten ∧ List.Forall₂ (FixedPage dataBegin) chunks pages := by
  obtain ⟨chunks, last, rfl, -, hp⟩ := h.split
  split at hp
  · next hlast => exact ⟨chunks, by simp [hlast], hp⟩
  · exact ⟨chunks ++ [last], by simp, hp⟩

/-- There are at most as many pages as rows. -/
theorem FixedColumn.length_pages_le {T : Type} [Pod T] {dataBegin : Nat}
    (hroom : dataBegin + Pod.size T + 1 ≤ 8192) {rows : List (Option T)} {pages : List Page}
    (h : FixedColumn dataBegin rows pages) : pages.length ≤ rows.length := by
  obtain ⟨chunks, last, rfl, hfull, hp⟩ := h.split
  have hchunks : chunks.length ≤ chunks.flatten.length := by
    rw [List.length_flatten]
    refine le_trans (by simp) (List.length_le_sum_of_one_le _ fun len hlen => ?_)
    obtain ⟨c, hc, rfl⟩ := List.mem_map.mp hlen
    refine List.length_pos_iff.mpr fun hnil => ?_
    have hc := hfull c hc
    simp only [PageFull, hnil, List.reduceOption_nil, List.length_nil] at hc
    omega
  rw [List.length_append]
  split at hp
  · rw [← hp.length_eq]
    omega
  · next hlast =>
    have hlast := List.length_pos_iff.mpr hlast
    rw [← hp.length_eq, List.length_append, List.length_singleton]
    omega

theorem FixedWriter.write_ok {T : Type} [Pod T] (fresh : Nat → Page) (dataBegin : Nat)
    (get : Data → Option T) (mk : T → Data) (hget : ∀ v, get (mk v) = some v)
    (hmk : ∀ v, mk v ≠ .null) (h4 : 4 ≤ dataBegin) (hroom : dataBegin + Pod.size T + 1 ≤ 8192)
    (rows : List (Option T)) :
    FixedColumn dataBegin rows (write fresh dataBegin get (rows.map (cellOf mk))) := by
  have hempty : Wrote dataBegin [] ({} : FixedWriter T) :=
    ⟨[], [], rfl, inv_empty (by omega)⟩
  obtain ⟨chunks, last, hall, h⟩ :=
    Wrote.foldl hget hmk h4 hroom fresh rows [] hempty
  rw [List.nil_append] at hall
  refine ⟨chunks, last, hall, h.full, ?_⟩
  unfold write
  simp only [h.numRows]
  by_cases hlast : last = []
  · simpa [hlast] using h.pages
  · simp only [hlast, if_false, List.length_eq_zero_iff, not_false_eq_true, if_true, ne_eq]
    exact List.rel_append h.pages (.cons (h.page h4) .nil)

/-! ## Long strings -/

theorem longPage_ok (page : Page) {marker pageDataLen : Nat} {chunk : List UInt8}
    (hm : marker < 65536) (hlen : chunk.length = pageDataLen) (hfits : 4 + pageDataLen ≤ 8192) :
    LongPage marker chunk (longPage page marker pageDataLen chunk) := by
  unfold longPage
  subst hlen
  refine ⟨?_, ?_, hfits, Buf.slice_memcpy_same _ hfits⟩
  · rw [Buf.u16_memcpy_outside _ (by omega), Buf.u16_setU16_outside _ (by omega),
      Buf.u16_setU16_same _ (by omega), Nat.mod_eq_of_lt hm]
  · rw [Buf.u16_memcpy_outside _ (by omega), Buf.u16_setU16_same _ (by omega),
      Nat.mod_eq_of_lt (by omega)]

/-- One turn of the loop of `save_long_string`. -/
theorem saveLongString_step (fresh : Nat → Page) {value : List UInt8} (pages : List Page)
    {offset : Nat} (firstPage : Bool) (h : offset < value.length) :
    ∃ chunk page n, 0 < n ∧ value.drop offset = chunk ++ value.drop (offset + n) ∧
      LongPage (if firstPage then 0xffff else 0xfffe) chunk page ∧
      saveLongString fresh value pages offset firstPage =
        saveLongString fresh value (pages ++ [page]) (offset + n) false := by
  let n := min (value.length - offset) (8192 - 4)
  have hlen : ((value.drop offset).take n).length = n := by
    simp [n]
  refine ⟨(value.drop offset).take n, _, n, by omega, ?_,
    longPage_ok (fresh pages.length) ?_ hlen (by omega), ?_⟩
  · rw [← List.drop_drop, List.take_append_drop]
  · split <;> omega
  · rw [saveLongString, if_pos h]

theorem saveLongString_rest (fresh : Nat → Page) (value : List UInt8) (pages : List Page)
    (offset : Nat) : ∃ cs ps, saveLongString fresh value pages offset false = pages ++ ps ∧
      value.drop offset = cs.flatten ∧ List.Forall₂ (LongPage 0xfffe) cs ps := by
  induction hn : value.length - offset using Nat.strong_induction_on generalizing pages offset with
  | _ n ih =>
    by_cases h : offset < value.length
    · obtain ⟨chunk, page, k, hk, hdrop, hpage, hsave⟩ :=
        saveLongString_step fresh pages false h
      obtain ⟨cs, ps, hrest, hcs, hps⟩ :=
        ih (value.length - (offset + k)) (by omega) (pages ++ [page]) (offset + k) rfl
      refine ⟨chunk :: cs, page :: ps, ?_, ?_, .cons hpage hps⟩
      · rw [hsave, hrest, List.append_assoc]
        rfl
      · rw [hdrop, hcs, List.flatten_cons]
    · refine ⟨[], [], ?_, ?_, .nil⟩
      · unfold saveLongString
        rw [if_neg h, List.append_nil]
      · rw [List.drop_eq_nil_of_le (by omega)]
        rfl

theorem saveLongString_ok (fresh : Nat → Page) {value : List UInt8} (hv : value ≠ [])
    (pages : List Page) :
    ∃ ps, saveLongString fresh value pages 0 true = pages ++ ps ∧ LongPages value ps := by
  obtain ⟨chunk, page, k, hk, hdrop, hpage, hsave⟩ := saveLongString_step fresh pages true
    (List.length_pos_iff.mpr hv)
  obtain ⟨cs, ps, hrest, hcs, hps⟩ := saveLongString_rest fresh value (pages ++ [page]) (0 + k)
  refine ⟨page :: ps, ?_, ⟨chunk, cs, page, ps, rfl, ?_, hpage, hps⟩⟩
  · rw [hsave, hrest, List.append_assoc]
    rfl
  · rw [← hcs, ← hdrop]
    rfl

/-! ## String columns -/

namespace StringWriter

variable {fresh : Nat → Page}

/-- The writer has flushed the pages of `segs` and holds `rows`. -/
structure Inv (segs : List Segment) (rows : List (Option (List UInt8))) (w : StringWriter) :
    Prop where
  pages : StringPages segs w.pages
  nonempty : ∀ seg ∈ segs, seg.values ≠ []
  numRows : w.numRows = rows.length
  data : w.data = rows.reduceOption.flatten
  offsetsLength : w.offsets.length = rows.reduceOption.length
  offsets : ∀ k (h : k < w.offsets.length),
    w.offsets[k].toNat = (rows.reduceOption.take (k + 1)).flatten.length
  bitmap : BitmapOk rows w.bitmap
  fits : 4 + 2 * rows.reduceOption.length + rows.reduceOption.flatten.length +
    (rows.length + 7) / 8 ≤ 8192

theorem inv_empty {segs : List Segment} {pages : List Page} (h : StringPages segs pages)
    (hne : ∀ seg ∈ segs, seg.values ≠ []) : Inv segs [] { pages := pages } :=
  ⟨h, hne, rfl, rfl, rfl, by simp, .nil, by simp⟩

theorem Inv.page {segs : List Segment} {rows : List (Option (List UInt8))} {w : StringWriter}
    (h : Inv segs rows w) : StringPage rows (w.page fresh) := by
  have hfits := h.fits
  have hbm := h.bitmap.length
  have hsize : Pod.size UInt16 = 2 := rfl
  have hoff : (w.offsets.flatMap Pod.toBytes).length = 2 * rows.reduceOption.length := by
    rw [length_flatMap_toBytes, h.offsetsLength, hsize]
  unfold StringWriter.page
  rw [h.numRows, h.data, h.offsetsLength, Nat.mul_comm _ 2]
  refine ⟨?_, ?_, fun i hi => ?_, fun k hk => ?_, ?_, hfits⟩
  · rw [Buf.u16_memcpy_outside _ (by omega), Buf.u16_memcpy_outside _ (by omega),
      Buf.u16_memcpy_outside _ (by omega), Buf.u16_setU16_outside _ (by omega),
      Buf.u16_setU16_same _ (by omega), Nat.mod_eq_of_lt (by omega)]
  · rw [Buf.u16_memcpy_outside _ (by omega), Buf.u16_memcpy_outside _ (by omega),
      Buf.u16_memcpy_outside _ (by omega), Buf.u16_setU16_same _ (by omega),
      Nat.mod_eq_of_lt (by omega)]
  · rw [getBitmap_memcpy _ hbm (by omega) hi, h.bitmap.bits i hi]
  · have hk' : k < w.offsets.length := h.offsetsLength ▸ hk
    rw [Buf.u16_memcpy_outside _ (by omega), Buf.u16_memcpy_outside _ (by omega), Buf.u16]
    have hfit : 4 + Pod.size UInt16 * w.offsets.length ≤ 8192 := by
      rw [h.offsetsLength, hsize]
      omega
    have hread := Buf.read_memcpy_flatMap (((fresh w.pages.length).setU16 0 rows.length).setU16 2
      rows.reduceOption.length) hk' hfit
    rw [hsize] at hread
    rw [hread, h.offsets k hk']
  · rw [Buf.slice_memcpy_outside _ (by omega), Buf.slice_memcpy_same _ (by omega)]

theorem Inv.flush {segs : List Segment} {rows : List (Option (List UInt8))} {w : StringWriter}
    (h : Inv segs rows w) (hrows : rows ≠ []) :
    Inv (segs ++ [.short rows]) [] (w.savePage fresh) :=
  inv_empty (h.pages.concatShort h.page) (nonempty_concat h.nonempty hrows)

theorem Inv.pushString {segs : List Segment} {rows : List (Option (List UInt8))}
    {w : StringWriter} (h : Inv segs rows w) {value : List UInt8}
    (hfit : 4 + (rows.reduceOption.length + 1) * 2 +
      (rows.reduceOption.flatten.length + value.length) + (rows.length / 8 + 1) ≤ 8192) :
    Inv segs (rows ++ [some value]) { w with
      bitmap := setBitmap w.bitmap w.numRows
      data := w.data ++ value
      offsets := w.offsets ++ [UInt16.ofNat (w.data ++ value).length]
      numRows := (w.numRows + 1) % 65536 } := by
  have hred : (rows ++ [some value]).reduceOption = rows.reduceOption ++ [value] := by
    simp [List.reduceOption_append]
  have hflat : (rows ++ [some value]).reduceOption.flatten =
      rows.reduceOption.flatten ++ value := by
    rw [hred, List.flatten_append, List.flatten_singleton]
  refine ⟨h.pages, h.nonempty, ?_, ?_, ?_, fun k hk => ?_, ?_, ?_⟩
  · have := h.fits
    show (w.numRows + 1) % 65536 = _
    rw [h.numRows, Nat.mod_eq_of_lt (by omega), List.length_append, List.length_singleton]
  · rw [hflat, h.data]
  · simp [hred, h.offsetsLength]
  · rw [hred]
    rcases Nat.lt_succ_iff_lt_or_eq.mp (by simpa using hk) with hlt | rfl
    · have hlt' : k < rows.reduceOption.length := h.offsetsLength ▸ hlt
      rw [List.getElem_append_left hlt, h.offsets k hlt, List.take_append_of_le_length hlt']
    · rw [List.getElem_concat_length rfl, h.offsetsLength,
        List.take_of_length_le (by simp), ← hred, hflat, h.data]
      have : (rows.reduceOption.flatten ++ value).length < 65536 := by
        rw [List.length_append]
        omega
      simpa using Nat.mod_eq_of_lt this
  · rw [h.numRows]
    exact h.bitmap.set value
  · rw [hflat, hred, List.length_append, List.length_append, List.length_append,
      List.length_singleton, List.length_singleton]
    omega

theorem Inv.pushNull {segs : List Segment} {rows : List (Option (List UInt8))}
    {w : StringWriter} (h : Inv segs rows w)
    (hfit : 4 + rows.reduceOption.length * 2 + rows.reduceOption.flatten.length +
      (rows.length / 8 + 1) ≤ 8192) :
    Inv segs (rows ++ [none]) { w with
      bitmap := unsetBitmap w.bitmap w.numRows
      numRows := (w.numRows + 1) % 65536 } := by
  have hred : (rows ++ [none]).reduceOption = rows.reduceOption := by
    simp [List.reduceOption_append]
  refine ⟨h.pages, h.nonempty, ?_, ?_, ?_, fun k hk => ?_, ?_, ?_⟩
  · have := h.fits
    rw [h.numRows, Nat.mod_eq_of_lt (by omega), List.length_append, List.length_singleton]
  · rw [hred, h.data]
  · rw [hred, h.offsetsLength]
  · rw [hred, h.offsets k hk]
  · rw [h.numRows]
    exact h.bitmap.unset
  · rw [hred, List.length_append, List.length_singleton]
    omega

/-- `w` has been given the values `all`. -/
def Wrote (all : List (Option (List UInt8))) (w : StringWriter) : Prop :=
  ∃ segs rows, all = segs.flatMap Segment.values ++ rows ∧ Inv segs rows w

theorem Wrote.putString {all : List (Option (List UInt8))} {w : StringWriter} (h : Wrote all w)
    (value : List UInt8) : Wrote (all ++ [some value]) (w.putString fresh value) := by
  obtain ⟨segs, rows, rfl, h⟩ := h
  unfold StringWriter.putString
  split
  · next hlong =>
    -- The rows at hand are flushed first, so that the long string comes after them.
    have hflushed : ∃ segs' : List Segment,
        segs.flatMap Segment.values ++ rows = segs'.flatMap Segment.values ∧
        Inv segs' [] (if w.numRows > 0 then w.savePage fresh else w) := by
      split
      · next hn =>
        have hrows : rows ≠ [] := List.ne_nil_of_length_pos (h.numRows ▸ hn)
        exact ⟨segs ++ [.short rows], by simp [Segment.values], h.flush hrows⟩
      · next hn =>
        have hrows : rows = [] := List.length_eq_zero_iff.mp (by have := h.numRows; omega)
        subst hrows
        exact ⟨segs, by simp, h⟩
    obtain ⟨segs', hsegs, h'⟩ := hflushed
    obtain ⟨ps, hsave, hps⟩ := saveLongString_ok fresh
      (List.length_pos_iff.mp (Nat.lt_of_le_of_lt (Nat.zero_le _) hlong))
      (if w.numRows > 0 then w.savePage fresh else w).pages
    refine ⟨segs' ++ [.long value], [], ?_, ?_⟩
    · rw [hsegs]
      simp [Segment.values]
    · simp only [hsave]
      exact { h' with
        pages := h'.pages.concatLong hlong hps
        nonempty := nonempty_concat h'.nonempty (by simp [Segment.values]) }
  · next hshort =>
    simp only [h.numRows, h.data, h.offsetsLength]
    split
    · next hfull =>
      have hrows : rows ≠ [] := fun hnil => by
        simp [hnil] at hfull
        omega
      refine ⟨segs ++ [.short rows], [some value], by simp [Segment.values],
        (h.flush hrows).pushString ?_⟩
      simp
      omega
    · next hfit => exact ⟨segs, rows ++ [some value], by simp, h.pushString (by omega)⟩

theorem Wrote.putNull {all : List (Option (List UInt8))} {w : StringWriter} (h : Wrote all w) :
    Wrote (all ++ [none]) (w.putNull fresh) := by
  obtain ⟨segs, rows, rfl, h⟩ := h
  unfold StringWriter.putNull
  simp only [h.numRows, h.data, h.offsetsLength]
  split
  · next hfull =>
    have hrows : rows ≠ [] := fun hnil => by simp [hnil] at hfull
    refine ⟨segs ++ [.short rows], [none], by simp [Segment.values],
      (h.flush hrows).pushNull ?_⟩
    simp
  · next hfit => exact ⟨segs, rows ++ [none], by simp, h.pushNull (by omega)⟩

/-- Visiting strings and NULLs one after another. -/
theorem Wrote.foldlM (fresh : Nat → Page) (rows all : List (Option (List UInt8))) {w : StringWriter}
    (h : Wrote all w) : ∃ w', (rows.map (cellOf Data.varchar)).foldlM (visit fresh) w = .ok w' ∧
      Wrote (all ++ rows) w' := by
  induction rows generalizing all w with
  | nil => exact ⟨w, rfl, by simpa using h⟩
  | cons row rows ih =>
    rw [List.map_cons, List.foldlM_cons, List.append_cons]
    cases row with
    | none => exact ih (all ++ [none]) h.putNull
    | some value => exact ih (all ++ [some value]) (h.putString value)

theorem write_ok (fresh : Nat → Page) (rows : List (Option (List UInt8))) :
    ∃ pages segs, write fresh (rows.map (cellOf Data.varchar)) = .ok pages ∧
      rows = segs.flatMap Segment.values ∧ StringPages segs pages ∧
        ∀ seg ∈ segs, seg.values ≠ [] := by
  obtain ⟨w, hw, segs, last, hall, h⟩ := Wrote.foldlM fresh rows []
    ⟨[], [], rfl, inv_empty .nil (by simp)⟩
  rw [List.nil_append] at hall
  unfold write
  rw [hw, ok_bind, h.numRows]
  by_cases hlast : last = []
  · refine ⟨w.pages, segs, by simp [hlast], by simp [hall, hlast], h.pages, h.nonempty⟩
  · have hflush : Inv (segs ++ [.short last]) [] (w.savePage fresh) := h.flush hlast
    refine ⟨(w.savePage fresh).pages, segs ++ [.short last], by simp [hlast],
      by simp [hall, Segment.values], hflush.pages, hflush.nonempty⟩

end StringWriter

/-! ## The table -/

theorem exists_rows {α : Type} (mk : α → Data) {values : List Data}
    (h : ∀ v ∈ values, v = .null ∨ ∃ x, v = mk x) :
    ∃ rows : List (Option α), values = rows.map (cellOf mk) := by
  induction values with
  | nil => exact ⟨[], rfl⟩
  | cons v values ih =>
    obtain ⟨rows, hrows⟩ := ih fun v' hv => h v' (by simp [hv])
    rcases h v (by simp) with rfl | ⟨x, rfl⟩
    · exact ⟨none :: rows, by simp [cellOf, hrows]⟩
    · exact ⟨some x :: rows, by simp [cellOf, hrows]⟩

/-- The pages that `to_columnar` writes for a column of its own type hold its values. -/
theorem writeColumn_ok (fresh : Nat → Page) {type : DataType} {values : List Data}
    (h : ∀ v ∈ values, v.HasType type) :
    ∃ pages, writeColumn fresh type values = .ok pages ∧ ColumnHolds ⟨type, pages⟩ values := by
  cases type with
  | int32 =>
    obtain ⟨rows, rfl⟩ := exists_rows Data.int32 fun v hv => by
      have := h v hv
      cases v <;> simp_all [Data.HasType]
    obtain ⟨chunks, rfl, hp⟩ :=
      (FixedWriter.write_ok fresh 4 Data.getInt32 Data.int32 (fun _ => rfl)
      (by simp) (by decide) (by decide) rows).chunks
    exact ⟨_, rfl, chunks, rfl, hp⟩
  | int64 =>
    obtain ⟨rows, rfl⟩ := exists_rows Data.int64 fun v hv => by
      have := h v hv
      cases v <;> simp_all [Data.HasType]
    obtain ⟨chunks, rfl, hp⟩ :=
      (FixedWriter.write_ok fresh 8 Data.getInt64 Data.int64 (fun _ => rfl)
      (by simp) (by decide) (by decide) rows).chunks
    exact ⟨_, rfl, chunks, rfl, hp⟩
  | fp64 =>
    obtain ⟨rows, rfl⟩ := exists_rows Data.fp64 fun v hv => by
      have := h v hv
      cases v <;> simp_all [Data.HasType]
    obtain ⟨chunks, rfl, hp⟩ := (FixedWriter.write_ok fresh 8 Data.getFp64 Data.fp64 (fun _ => rfl)
      (by simp) (by decide) (by decide) rows).chunks
    exact ⟨_, rfl, chunks, rfl, hp⟩
  | varchar =>
    obtain ⟨rows, rfl⟩ := exists_rows Data.varchar fun v hv => by
      have := h v hv
      cases v <;> simp_all [Data.HasType]
    obtain ⟨pages, segs, hw, rfl, hp, -⟩ := StringWriter.write_ok fresh rows
    exact ⟨pages, hw, segs, rfl, hp⟩

/-- Column `i` of the rows of a table. -/
def Table.column (t : Table) (i : Nat) : List Data := t.data.map fun record => record.getD i .null

/-- The values of a column have its type. -/
theorem Table.WellTyped.column_hasType {t : Table} (h : t.WellTyped) {i : Nat} {type : DataType}
    (htype : t.types[i]? = some type) : ∀ v ∈ t.column i, v.HasType type := by
  intro v hv
  obtain ⟨record, hr, rfl⟩ := List.mem_map.mp hv
  obtain ⟨hi, rfl⟩ := List.getElem?_eq_some_iff.mp htype
  have hlen := (h record hr).length_eq
  have := (h record hr).get (i := i) (by omega) hi
  simpa [hlen, hi] using this

/-- `to_columnar` succeeds, and its columns hold the columns of the table. -/
theorem toColumnar_ok (fresh : Nat → Nat → Page) {t : Table} (h : t.WellTyped) :
    ∃ columns, toColumnar fresh t = .ok { numRows := t.data.length, columns := columns } ∧
      List.Forall₂ (fun ti c => c.type = ti.1 ∧ ColumnHolds c (t.column ti.2))
        t.types.zipIdx columns := by
  have hcolumn : ∀ ti ∈ t.types.zipIdx, ∃ c, (do
      let values ← t.data.mapM fun record => Table.valueAt record ti.2
      let pages ← writeColumn (fresh ti.2) ti.1 values
      .ok ({ type := ti.1, pages := pages } : Column) : Except Fault Column) = .ok c ∧
      c.type = ti.1 ∧ ColumnHolds c (t.column ti.2) := by
    rintro ⟨type, i⟩ hti
    obtain ⟨hi, rfl⟩ : ∃ hi : i < t.types.length, type = t.types[i] := by
      have := List.mk_mem_zipIdx_iff_getElem?.mp hti
      exact (List.getElem?_eq_some_iff.mp this).imp fun _ h => h.symm
    have hvalues : (t.data.mapM fun record => Table.valueAt record i) = .ok (t.column i) :=
      mapM_eq_map fun record hr => by
        have hlen := (h record hr).length_eq
        simp [Table.valueAt, hlen, hi]
    have htyped : ∀ v ∈ t.column i, v.HasType t.types[i] :=
      h.column_hasType (List.getElem?_eq_getElem hi)
    obtain ⟨pages, hw, hp⟩ := writeColumn_ok (fresh i) htyped
    exact ⟨⟨t.types[i], pages⟩, by simp only [hvalues, ok_bind, hw], rfl, hp⟩
  obtain ⟨columns, hc, hall⟩ := mapM_ok hcolumn
  exact ⟨columns, by unfold toColumnar; rw [hc]; rfl, hall⟩

/-- The parts of a table that `to_columnar` has made. -/
theorem columns_of_toColumnar {fresh : Nat → Nat → Page} {t : Table} {table : ColumnarTable}
    (h : toColumnar fresh t = .ok table) : table.numRows = t.data.length ∧
      table.columns.length = t.types.length ∧ ∀ (i : Nat) (type : DataType),
        t.types[i]? = some type → ∃ pages, table.columns[i]? = some ⟨type, pages⟩ ∧
          writeColumn (fresh i) type (t.column i) = .ok pages := by
  obtain ⟨columns, hcolumns, htable⟩ := bind_eq_ok.mp h
  have hall := mapM_eq_ok_iff.mp hcolumns
  rw [← Except.ok.inj htable]
  refine ⟨rfl, by simpa using hall.length_eq.symm, fun i type htype => ?_⟩
  obtain ⟨hi, htype⟩ := List.getElem?_eq_some_iff.mp htype
  have hi' : i < columns.length := by rwa [← hall.length_eq, List.length_zipIdx]
  have hcolumn := hall.get (by simpa using hi) hi'
  simp only [List.get_eq_getElem, List.getElem_zipIdx, Nat.zero_add, htype] at hcolumn
  obtain ⟨values, hvalues, hcolumn⟩ := bind_eq_ok.mp hcolumn
  obtain ⟨pages, hpages, hcolumn⟩ := bind_eq_ok.mp hcolumn
  have hvalue : ∀ record v, Table.valueAt record i = .ok v → record.getD i .null = v := by
    intro record v hv
    unfold Table.valueAt at hv
    split at hv
    · next hget => rw [List.getD_eq_getElem?_getD, hget, Option.getD_some, Except.ok.inj hv]
    · cases hv
  have hvalues : t.column i = values := by
    have hmap := List.forall₂_map_left_iff.mpr ((mapM_eq_ok_iff.mp hvalues).imp hvalue)
    rwa [List.forall₂_eq_eq_eq] at hmap
  refine ⟨pages, ?_, hvalues ▸ hpages⟩
  rw [List.getElem?_eq_getElem hi', Except.ok.inj hcolumn]

/-- Reading back all columns. -/
theorem mapM_readColumn {t : Table} {tis : List (DataType × Nat)} {columns : List Column}
    (h : List.Forall₂ (fun ti c => c.type = ti.1 ∧ ColumnHolds c (t.column ti.2)) tis columns) :
    columns.mapM (readColumn t.data.length) = .ok (tis.map fun ti => t.column ti.2) ∧
      columns.map Column.type = tis.map Prod.fst := by
  induction h with
  | nil => exact ⟨rfl, rfl⟩
  | cons hc _ ih =>
    have hread := readColumn_holds hc.2
    rw [Table.column, List.length_map, ← Table.column] at hread
    refine ⟨?_, by rw [List.map_cons, List.map_cons, hc.1, ih.2]⟩
    rw [List.mapM_cons, hread, ok_bind, ih.1]
    rfl

/-- The rows put together from the columns. -/
theorem Table.WellTyped.rows_of_columns {t : Table} (h : t.WellTyped) :
    ((List.range t.data.length).map fun i =>
      (t.types.zipIdx.map fun ti => t.column ti.2).map fun c => c.getD i .null) = t.data := by
  have hrow : ∀ i (hi : i < t.data.length),
      (t.types.zipIdx.map fun ti => t.column ti.2).map (fun c => c.getD i .null) = t.data[i] := by
    intro i hi
    have hlen := (h t.data[i] (by simp)).length_eq
    apply List.ext_getElem (by simp [hlen])
    intro j hj hj'
    simp [Table.column, hi, hj']
  apply List.ext_getElem (by simp)
  intro i hi hi'
  rw [List.getElem_map, List.getElem_range]
  exact hrow i hi'

/-- `from_columnar` undoes `to_columnar`. -/
theorem fromColumnar_toColumnar (fresh : Nat → Nat → Page) (t : Table) (h : t.WellTyped) :
    ∃ c, toColumnar fresh t = .ok c ∧ fromColumnar c = .ok t := by
  obtain ⟨columns, hto, hall⟩ := toColumnar_ok fresh h
  obtain ⟨hread, htypes⟩ := mapM_readColumn hall
  refine ⟨_, hto, ?_⟩
  unfold fromColumnar
  simp only [hread, ok_bind, h.rows_of_columns, htypes, List.zipIdx_map_fst]

/-- Two columns with a NULL in each. -/
theorem fromColumnar_toColumnar_two :
    ∃ c, toColumnar (fun _ _ => Buf.zero 8192)
        ⟨[[.varchar [97], .null], [.null, .int32 5]], [.varchar, .int32]⟩ = .ok c ∧
      fromColumnar c = .ok ⟨[[.varchar [97], .null], [.null, .int32 5]], [.varchar, .int32]⟩ :=
  fromColumnar_toColumnar _ _ (by simp [Table.WellTyped, Data.HasType])

end HashJoin
