import HashJoin.ColumnInserterProof

/-!
# The column inserter for eight-byte values

`insert` asks for room for four bytes, whatever the size of the value. The last value of a page of
an `INT64` or `FP64` column can therefore reach into the row bitmap, and `save_page` then copies
the bitmap over its high bytes. Every page is still read without leaving it, so reading a column
back gives the inserted rows but for these values.
-/

namespace HashJoin

open Bytes

namespace ColumnInserter

variable {T : Type} [Pod T]

/-- `insert` takes the page to have room, but the value and the bitmap do not both fit. -/
def Cramped (w : ColumnInserter T) : Prop :=
  w.dataEnd + 4 + w.numRows / 8 + 1 ≤ 8192 ∧ 8192 < w.dataEnd + Pod.size T + w.numRows / 8 + 1

instance (w : ColumnInserter T) : Decidable w.Cramped := inferInstanceAs (Decidable (_ ∧ _))

/-- How many bytes of the value the bitmap then takes. -/
def overlap (w : ColumnInserter T) : Nat := w.dataEnd + Pod.size T + w.numRows / 8 + 1 - 8192

/-- The value with the first bytes of the bitmap over its high bytes. -/
def overlaid (w : ColumnInserter T) (value : T) : T :=
  Pod.ofBytes ((Pod.toBytes value).take (Pod.size T - w.overlap) ++ w.bitmap.slice 0 w.overlap)

/-- What is read back for a call. -/
def stored (w : ColumnInserter T) : Option T → Option T
  | some value => some (if w.Cramped then w.overlaid value else value)
  | none => none

theorem stored_of_cramped {w : ColumnInserter T} (h : w.Cramped) (value : T) :
    w.stored (some value) = some (w.overlaid value) := by
  rw [stored, if_pos h]

theorem stored_of_not_cramped {w : ColumnInserter T} (h : ¬ w.Cramped) (value : T) :
    w.stored (some value) = some value := by
  rw [stored, if_neg h]

/-- What is read back for the calls from `w` on. -/
def storedRows (fresh : Nat → Page) : ColumnInserter T → List (Option T) → List (Option T)
  | _, [] => []
  | w, call :: calls => w.stored call :: storedRows fresh (w.put fresh call) calls

/-- No value that is inserted from `w` on is cramped. -/
def Uncramped (fresh : Nat → Page) : ColumnInserter T → List (Option T) → Prop
  | _, [] => True
  | w, call :: calls => ¬ (call.isSome ∧ w.Cramped) ∧ Uncramped fresh (w.put fresh call) calls

/-- The values of the page end before its bitmap. -/
def Apart (T : Type) [Pod T] (p : Page) : Prop :=
  dataBegin T + Pod.size T * p.u16 2 ≤ 8192 - (p.u16 0 + 7) / 8

theorem apart_of_page {rows : List (Option T)} {p : Page}
    (h : FixedPage (dataBegin T) rows p) : Apart T p := by
  have hfits := h.fits
  unfold Apart
  rw [h.numRows, h.numNonNull]
  omega

variable {fresh : Nat → Page}

/-! ## The cramped page -/

/-- The value on `cur` that was inserted last reaches into the bitmap. Saved now, the page reads as
`rows`, and every further call saves it. -/
structure Overfull (fresh : Nat → Page) (rows : List (Option T)) (flushed : List Page) (cur : Page)
    (w : ColumnInserter T) : Prop where
  column : w.column.At fresh flushed cur
  nonempty : w.numRows ≠ 0
  full : 8192 < w.dataEnd + w.numRows / 8 + 1
  page : FixedRead (dataBegin T) rows (w.finishPage cur)
  overlapping : ¬ Apart T (w.finishPage cur)

theorem slice_take {n : Nat} (b : Buf n) (off : Nat) {m k : Nat} (h : m ≤ k) :
    (b.slice off k).take m = b.slice off m := by
  obtain ⟨d, rfl⟩ := Nat.exists_eq_add_of_le h
  rw [Buf.slice_add, List.take_left' (Buf.length_slice _ _ _)]

/-- Saving a page copies the bitmap over the high bytes of a value that reaches into it. -/
theorem finishPage_overlaid (w : ColumnInserter T) {p : Page} {off r : Nat} {value : T}
    (hp : p.slice off (Pod.size T) = Pod.toBytes value) (h4 : 4 ≤ off) (hr : r ≤ Pod.size T)
    (hrm : r ≤ (w.numRows + 7) / 8) (hm : (w.numRows + 7) / 8 ≤ 8188)
    (hoff : off + Pod.size T = 8192 - (w.numRows + 7) / 8 + r) :
    (w.finishPage p).read T off =
      Pod.ofBytes ((Pod.toBytes value).take (Pod.size T - r) ++ w.bitmap.slice 0 r) := by
  have hsize : Pod.size T = (Pod.size T - r) + r := by omega
  have hlow : (w.finishPage p).slice off (Pod.size T - r) =
      (Pod.toBytes value).take (Pod.size T - r) := by
    rw [slice_finishPage w p h4 (by omega), ← hp, slice_take _ _ (Nat.sub_le _ _)]
  have hhigh : (w.finishPage p).slice (off + (Pod.size T - r)) r = w.bitmap.slice 0 r := by
    have hat : off + (Pod.size T - r) = 8192 - (w.numRows + 7) / 8 + 0 := by omega
    unfold finishPage
    rw [hat, Buf.slice_memcpy_inside _ 0 r (by rw [Buf.length_slice]; omega)
      (by rw [Buf.length_slice]; omega), List.drop_zero, slice_take _ _ hrm]
  unfold Buf.read
  conv_lhs => rw [hsize, Buf.slice_add, hlow, hhigh]

theorem Filling.cramped {rows : List (Option T)} {flushed : List Page} {cur : Page}
    {w : ColumnInserter T} (h : Filling fresh rows flushed cur w) (hs : Pod.size T = 8)
    (hc : w.Cramped) (value : T) :
    Overfull fresh (rows ++ [some (w.overlaid value)]) flushed (cur.write w.dataEnd value)
      { column := w.column.modifyPage fresh fun page => page.write w.dataEnd value
        dataEnd := w.dataEnd + Pod.size T
        bitmap := w.bitmap.modify (w.numRows / 8) (setBit (w.numRows % 8))
        numRows := (w.numRows + 1) % 65536 } := by
  obtain ⟨hroom, hover⟩ := hc
  have hbegin : dataBegin T = 8 := by simp [dataBegin, hs]
  have hrows := h.numRows
  have hend := h.dataEnd
  have hle : rows.reduceOption.length ≤ rows.length := List.reduceOption_length_le rows
  rw [hs] at hover hend
  have hoverlap : w.overlap = w.dataEnd + 8 + w.numRows / 8 + 1 - 8192 := by
    unfold overlap
    rw [hs]
  have hnext : (w.numRows + 1) % 65536 = rows.length + 1 := by omega
  have hlen : (rows ++ [some (w.overlaid value)]).length = rows.length + 1 := by simp
  have hred : (rows ++ [some (w.overlaid value)]).reduceOption =
      rows.reduceOption ++ [w.overlaid value] := by
    simp [List.reduceOption_append]
  have hbits := h.bits.set (by omega) (w.overlaid value)
  rw [← hrows] at hbits
  rw [hnext]
  -- The inserter after the call, and the two counts of the page that it would save.
  generalize hw : ({ column := w.column.modifyPage fresh fun page => page.write w.dataEnd value
                     dataEnd := w.dataEnd + Pod.size T
                     bitmap := w.bitmap.modify (w.numRows / 8) (setBit (w.numRows % 8))
                     numRows := rows.length + 1 } : ColumnInserter T) = w'
  have hrows' : w'.numRows = rows.length + 1 := by rw [← hw]
  have hend' : w'.dataEnd = dataBegin T + Pod.size T * (rows.reduceOption.length + 1) := by
    rw [← hw]
    show w.dataEnd + Pod.size T = _
    rw [hs]
    omega
  have hbitmap : w'.bitmap = w.bitmap.modify (w.numRows / 8) (setBit (w.numRows % 8)) := by
    rw [← hw]
  have hcount := finishPage_numRows w' (cur.write w.dataEnd value) (by omega)
  have hvalues := finishPage_numNonNull w' (cur.write w.dataEnd value) (by omega) (by omega) hend'
    (by omega)
  refine ⟨?_, by omega, ?_, ⟨?_, fun i hi => ?_, fun k hk => ?_, ?_⟩, ?_⟩
  · rw [← hw]
    exact h.column.modifyPage fun page => page.write w.dataEnd value
  · rw [hend', hrows', hs]
    omega
  · rw [hcount, hrows', hlen]
  · have hbit := hbits.getBitmap (by omega)
      (((cur.write w.dataEnd value).setU16 0 w'.numRows).setU16 2
        ((w'.dataEnd - dataBegin T) / Pod.size T)) hi
    rw [hlen, ← hrows', ← hbitmap] at hbit
    rwa [hlen, ← hrows']
  · simp only [hred]
    rcases Nat.lt_succ_iff_lt_or_eq.mp (by simpa [hred] using hk) with hlt | rfl
    · rw [List.getElem_append_left hlt, ← h.values k hlt, hbegin, hs, Buf.read,
        slice_finishPage w' _ (by omega) (by omega), ← Buf.read,
        Buf.read_write_outside _ _ (by omega)]
    · have hbytes : (cur.write w.dataEnd value).slice w.dataEnd (Pod.size T) =
          Pod.toBytes value := Buf.slice_write_same cur value (by omega)
      have hover := finishPage_overlaid w' (r := w.overlap) hbytes (by omega)
        (by omega) (by omega) (by omega) (by omega)
      have hslice : w'.bitmap.slice 0 w.overlap = w.bitmap.slice 0 w.overlap :=
        Buf.slice_congr fun i _ hi => by
          rw [hbitmap, Buf.byte_modify _ _ (by omega), if_neg (by omega)]
      rw [List.getElem_concat_length rfl, hs, ← hend, hover, hslice]
      rfl
  · rw [hred, List.length_append, List.length_singleton, hs]
    omega
  · unfold Apart
    rw [hcount, hvalues, hrows', hs]
    omega

/-! ## A run of calls -/

/-- The pages `flushed` are saved, and read as `all`. -/
structure Saved (fresh : Nat → Page) (all : List (Option T)) (clear : Prop) (flushed : List Page)
    (cur : Page) (w : ColumnInserter T) : Prop extends Filling fresh [] flushed cur w where
  reads : ∃ chunks, all = chunks.flatten ∧
    List.Forall₂ (FixedRead (dataBegin T)) chunks flushed
  apart : clear ↔ ∀ p ∈ flushed, Apart T p

/-- `all` is what is read back for the calls so far, and `clear` whether none was cramped. -/
inductive Holds (fresh : Nat → Page) (all : List (Option T)) (clear : Prop)
    (w : ColumnInserter T) : Prop where
  | filling (chunks : List (List (Option T))) (rows : List (Option T)) (flushed : List Page)
      (cur : Page) (hall : all = chunks.flatten ++ rows)
      (hread : List.Forall₂ (FixedRead (dataBegin T)) chunks flushed)
      (hapart : clear ↔ ∀ p ∈ flushed, Apart T p) (h : Filling fresh rows flushed cur w)
  | overfull (chunks : List (List (Option T))) (rows : List (Option T)) (flushed : List Page)
      (cur : Page) (hall : all = chunks.flatten ++ rows)
      (hread : List.Forall₂ (FixedRead (dataBegin T)) chunks flushed)
      (hclear : ¬ clear) (h : Overfull fresh rows flushed cur w)

theorem Holds.savePage {all : List (Option T)} {clear : Prop} {w : ColumnInserter T}
    (h : Holds fresh all clear w) (hs : Pod.size T = 8) :
    ∃ flushed cur, Saved fresh all clear flushed cur (w.savePage fresh) := by
  have hbegin : dataBegin T = 8 := by simp [dataBegin, hs]
  cases h with
  | filling chunks rows flushed cur hall hread hapart h =>
    have hpage := h.page (by omega)
    refine ⟨_, _, filling_nil (h.column.nextPage _) (h.column.modifyPage_pages _) (by simp) rfl rfl
      (by omega), ⟨chunks ++ [rows], by simp [hall], ?_⟩, ?_⟩
    · exact List.rel_append hread (.cons hpage.read .nil)
    · simp only [List.mem_append, List.mem_singleton, or_imp, forall_and, forall_eq]
      exact ⟨fun hc => ⟨hapart.mp hc, apart_of_page hpage⟩, fun hp => hapart.mpr hp.1⟩
  | overfull chunks rows flushed cur hall hread hclear h =>
    refine ⟨_, _, filling_nil (h.column.nextPage _) (h.column.modifyPage_pages _) (by simp) rfl rfl
      (by omega), ⟨chunks ++ [rows], by simp [hall], ?_⟩, ?_⟩
    · exact List.rel_append hread (.cons h.page .nil)
    · exact ⟨fun hc => absurd hc hclear, fun hp => absurd (hp _ (by simp)) h.overlapping⟩

theorem Saved.pushValue {all : List (Option T)} {clear : Prop} {flushed : List Page} {cur : Page}
    {w : ColumnInserter T} (h : Saved fresh all clear flushed cur w) (hs : Pod.size T = 8)
    (value : T) :
    Holds fresh (all ++ [some value]) clear
      { column := w.column.modifyPage fresh fun page => page.write w.dataEnd value
        dataEnd := w.dataEnd + Pod.size T
        bitmap := w.bitmap.modify (w.numRows / 8) (setBit (w.numRows % 8))
        numRows := (w.numRows + 1) % 65536 } := by
  obtain ⟨chunks, hall, hread⟩ := h.reads
  have hbegin : dataBegin T = 8 := by simp [dataBegin, hs]
  refine .filling chunks [some value] flushed _ (by rw [hall]) hread h.apart
    (h.toFilling.pushValue value ?_)
  simp [hbegin, hs]

theorem Saved.pushNull {all : List (Option T)} {clear : Prop} {flushed : List Page} {cur : Page}
    {w : ColumnInserter T} (h : Saved fresh all clear flushed cur w) (hs : Pod.size T = 8) :
    Holds fresh (all ++ [none]) clear
      { w with
        bitmap := w.bitmap.modify (w.numRows / 8) (clearBit (w.numRows % 8))
        numRows := (w.numRows + 1) % 65536 } := by
  obtain ⟨chunks, hall, hread⟩ := h.reads
  have hbegin : dataBegin T = 8 := by simp [dataBegin, hs]
  refine .filling chunks [none] flushed _ (by rw [hall]) hread h.apart (h.toFilling.pushNull ?_)
  simp [hbegin]

theorem Holds.insert {all : List (Option T)} {clear : Prop} {w : ColumnInserter T}
    (h : Holds fresh all clear w) (hs : Pod.size T = 8) (value : T) :
    Holds fresh (all ++ [w.stored (some value)]) (clear ∧ ¬ w.Cramped) (w.insert fresh value) := by
  unfold ColumnInserter.insert
  by_cases hfull : w.dataEnd + 4 + w.numRows / 8 + 1 > 8192
  · have hc : ¬ w.Cramped := fun hc => absurd hc.1 (by omega)
    obtain ⟨flushed, cur, hsaved⟩ := h.savePage hs
    simp only [if_pos hfull, stored_of_not_cramped hc, hc, not_false_eq_true, and_true]
    exact hsaved.pushValue hs value
  · simp only [if_neg hfull]
    cases h with
    | filling chunks rows flushed cur hall hread hapart h =>
      by_cases hc : w.Cramped
      · simp only [stored_of_cramped hc, hc, not_true_eq_false, and_false]
        exact .overfull chunks _ flushed _ (by rw [hall, List.append_assoc]) hread id
          (h.cramped hs hc value)
      · simp only [stored_of_not_cramped hc, hc, not_false_eq_true, and_true]
        refine .filling chunks _ flushed _ (by rw [hall, List.append_assoc]) hread hapart
          (h.pushValue value ?_)
        have hroom : ¬ 8192 < w.dataEnd + Pod.size T + w.numRows / 8 + 1 :=
          fun hover => hc ⟨by omega, hover⟩
        rw [← h.dataEnd, ← h.numRows]
        omega
    | overfull chunks rows flushed cur hall hread hclear h => exact absurd h.full (by omega)

theorem Holds.insertNull {all : List (Option T)} {clear : Prop} {w : ColumnInserter T}
    (h : Holds fresh all clear w) (hs : Pod.size T = 8) :
    Holds fresh (all ++ [none]) clear (w.insertNull fresh) := by
  unfold ColumnInserter.insertNull
  by_cases hfull : w.dataEnd + w.numRows / 8 + 1 > 8192
  · obtain ⟨flushed, cur, hsaved⟩ := h.savePage hs
    rw [if_pos hfull]
    exact hsaved.pushNull hs
  · rw [if_neg hfull]
    cases h with
    | filling chunks rows flushed cur hall hread hapart h =>
      refine .filling chunks _ flushed _ (by rw [hall, List.append_assoc]) hread hapart
        (h.pushNull ?_)
      rw [← h.dataEnd, ← h.numRows]
      omega
    | overfull chunks rows flushed cur hall hread hclear h => exact absurd h.full hfull

theorem Holds.foldl (calls : List (Option T)) {all : List (Option T)} {clear : Prop}
    {w : ColumnInserter T} (h : Holds fresh all clear w) (hs : Pod.size T = 8) :
    Holds fresh (all ++ storedRows fresh w calls) (clear ∧ Uncramped fresh w calls)
      (calls.foldl (put fresh) w) := by
  induction calls generalizing all clear w with
  | nil => simpa [storedRows, Uncramped] using h
  | cons call calls ih =>
    rw [List.foldl_cons, storedRows, List.append_cons, Uncramped, ← and_assoc]
    apply ih
    cases call with
    | some value => simpa [ColumnInserter.put] using h.insert hs value
    | none => simpa [ColumnInserter.put, stored] using h.insertNull hs

/-- What the pages that a sequence of calls leaves are read as, and when values and bitmap stay
apart on all of them. -/
theorem write_reads (fresh : Nat → Page) (hs : Pod.size T = 8) (calls : List (Option T)) :
    ∃ chunks, storedRows fresh {} calls = chunks.flatten ∧
      List.Forall₂ (FixedRead (dataBegin T)) chunks (write fresh calls) ∧
      (Uncramped fresh {} calls ↔ ∀ p ∈ write fresh calls, Apart T p) := by
  have hempty : Holds fresh [] True ({} : ColumnInserter T) :=
    .filling [] [] [] _ rfl .nil (by simp)
      (filling_nil ColumnPages.at_empty rfl rfl rfl rfl (by simp [dataBegin, hs]))
  have hrun := hempty.foldl calls hs
  rw [List.nil_append, true_and] at hrun
  unfold write finalize
  by_cases hrows : (calls.foldl (put fresh) ({} : ColumnInserter T)).numRows = 0
  · rw [if_neg (not_not.mpr hrows)]
    cases hrun with
    | filling chunks rows flushed cur hall hread hapart h =>
      have hnil : rows = [] := List.length_eq_zero_iff.mp (h.numRows ▸ hrows)
      rw [h.unused (by simp [hnil])]
      exact ⟨chunks, by simp [hall, hnil], hread, hapart⟩
    | overfull chunks rows flushed cur hall hread hclear h => exact absurd hrows h.nonempty
  · rw [if_pos hrows]
    obtain ⟨flushed, cur, hsaved⟩ := hrun.savePage hs
    obtain ⟨chunks, hall, hread⟩ := hsaved.reads
    rw [hsaved.unused rfl]
    exact ⟨chunks, hall, hread, hsaved.apart⟩

/-! ## Reading the column back -/

/-- The table of the column that the calls leave has the inserted values and NULLs in order. -/
def ReadsBack (type : DataType) (mk : T → Data) (fresh : Nat → Page)
    (calls : List (Option T)) : Prop :=
  fromColumnar { numRows := calls.length, columns := [⟨type, write fresh calls⟩] } =
    .ok ⟨calls.map fun call => [cellOf mk call], [type]⟩

/-- No `insert` of the calls on an empty column finds its page cramped. -/
def NeverCramped (fresh : Nat → Page) (calls : List (Option T)) : Prop :=
  ∀ before value after, calls = before ++ some value :: after →
    ¬ (before.foldl (put fresh) {}).Cramped

/-- A value that finds its page cramped has the bytes that the bitmap puts over its high ones. -/
def CrampedAgree (fresh : Nat → Page) (calls : List (Option T)) : Prop :=
  ∀ before value after, calls = before ++ some value :: after →
    (before.foldl (put fresh) {}).Cramped → (before.foldl (put fresh) {}).overlaid value = value

/-- What holds at every call of a run holds at the first one and in the rest of the run. -/
theorem forall_split_cons {α σ : Type} {P : σ → α → Prop} (f : σ → α → σ) (s : σ) (a : α)
    (l : List α) :
    (∀ before b after, a :: l = before ++ b :: after → P (before.foldl f s) b) ↔
      P s a ∧ ∀ before b after, l = before ++ b :: after → P (before.foldl f (f s a)) b := by
  constructor
  · intro h
    refine ⟨h [] a l rfl, fun before b after hl => ?_⟩
    exact h (a :: before) b after (by rw [hl, List.cons_append])
  · rintro ⟨ha, hl⟩ before b after heq
    cases before with
    | nil =>
      obtain ⟨rfl, -⟩ := List.cons.inj heq
      exact ha
    | cons c before =>
      obtain ⟨rfl, hrest⟩ := List.cons.inj heq
      exact hl before b after hrest

theorem uncramped_iff (fresh : Nat → Page) (w : ColumnInserter T) (calls : List (Option T)) :
    Uncramped fresh w calls ↔ ∀ before call after, calls = before ++ call :: after →
      ¬ (call.isSome ∧ (before.foldl (put fresh) w).Cramped) := by
  induction calls generalizing w with
  | nil => simp [Uncramped]
  | cons call calls ih =>
    unfold Uncramped
    rw [ih]
    exact (forall_split_cons (P := fun w' (c : Option T) => ¬ (c.isSome ∧ w'.Cramped))
      (put fresh) w call calls).symm

theorem storedRows_eq_iff (fresh : Nat → Page) (w : ColumnInserter T) (calls : List (Option T)) :
    storedRows fresh w calls = calls ↔ ∀ before call after, calls = before ++ call :: after →
      (before.foldl (put fresh) w).stored call = call := by
  induction calls generalizing w with
  | nil => simp [storedRows]
  | cons call calls ih =>
    unfold storedRows
    rw [List.cons.injEq, ih]
    exact (forall_split_cons (P := fun w' (c : Option T) => w'.stored c = c)
      (put fresh) w call calls).symm

theorem stored_eq_iff (w : ColumnInserter T) (value : T) :
    w.stored (some value) = some value ↔ (w.Cramped → w.overlaid value = value) := by
  by_cases hc : w.Cramped
  · simp [stored_of_cramped hc, hc]
  · simp [stored_of_not_cramped hc, hc]

theorem neverCramped_iff (fresh : Nat → Page) (calls : List (Option T)) :
    NeverCramped fresh calls ↔ Uncramped fresh {} calls := by
  rw [uncramped_iff]
  constructor
  · rintro h before call after rfl ⟨hsome, hc⟩
    obtain ⟨value, rfl⟩ := Option.isSome_iff_exists.mp hsome
    exact h before value after rfl hc
  · intro h before value after heq hc
    exact h before _ after heq ⟨rfl, hc⟩

/-- Without NULLs the bitmap grows in step with the values, and no page is ever cramped. -/
theorem neverCramped_of_values (fresh : Nat → Page) (hs : Pod.size T = 8)
    {calls : List (Option T)} (hsome : ∀ call ∈ calls, call.isSome) :
    NeverCramped fresh calls := by
  have hrun : ∀ l : List (Option T), (∀ call ∈ l, call.isSome) →
      (l.foldl (put fresh) {}).dataEnd = 8 + 8 * (l.foldl (put fresh) {}).numRows ∧
        (l.foldl (put fresh) {}).numRows ≤ 1007 := by
    intro l hl
    induction l using List.reverseRecOn with
    | nil => exact ⟨by simp [dataBegin, hs], by simp⟩
    | append_singleton l call ih =>
      obtain ⟨hend, hrows⟩ := ih fun c hc => hl c (by simp [hc])
      obtain ⟨value, rfl⟩ := Option.isSome_iff_exists.mp (hl call (by simp))
      rw [List.foldl_concat, ColumnInserter.put]
      unfold ColumnInserter.insert
      split
      · simp [savePage, dataBegin, hs]
      · show _ + Pod.size T = 8 + 8 * ((_ + 1) % 65536) ∧ (_ + 1) % 65536 ≤ 1007
        omega
  rintro before value after rfl ⟨hroom, hover⟩
  obtain ⟨hend, hrows⟩ := hrun before fun c hc => hsome c (by simp [hc])
  omega

theorem crampedAgree_iff (fresh : Nat → Page) (calls : List (Option T)) :
    CrampedAgree fresh calls ↔ storedRows fresh {} calls = calls := by
  rw [storedRows_eq_iff]
  constructor
  · rintro h before call after rfl
    cases call with
    | some value => exact (stored_eq_iff _ value).mpr (h before value after rfl)
    | none => rfl
  · intro h before value after heq
    exact (stored_eq_iff _ value).mp (h before _ after heq)

theorem length_storedRows (fresh : Nat → Page) (w : ColumnInserter T) (calls : List (Option T)) :
    (storedRows fresh w calls).length = calls.length := by
  induction calls generalizing w with
  | nil => rfl
  | cons call calls ih => rw [storedRows, List.length_cons, List.length_cons, ih]

/-- What the column is read back as. -/
theorem fromColumnar_write {type : DataType} {mk : T → Data} (hs : Pod.size T = 8)
    (htype : readPage type = readFixed (dataBegin T) mk) (fresh : Nat → Page)
    (calls : List (Option T)) :
    fromColumnar { numRows := calls.length, columns := [⟨type, write fresh calls⟩] } =
      .ok ⟨(storedRows fresh {} calls).map fun call => [cellOf mk call], [type]⟩ := by
  obtain ⟨chunks, hchunks, hread, -⟩ := write_reads fresh hs calls
  have hcolumn := readColumn_fixed htype hread
  rw [← hchunks] at hcolumn
  have hlen : ((storedRows fresh {} calls).map (cellOf mk)).length =
      (storedRows fresh {} calls).length := List.length_map _
  rw [← hlen] at hcolumn
  have htable := fromColumnar_column hcolumn
  rw [hlen, length_storedRows, List.map_map] at htable
  exact htable

theorem readsBack_iff {type : DataType} {mk : T → Data} (hs : Pod.size T = 8)
    (htype : readPage type = readFixed (dataBegin T) mk)
    (hmk : ∀ a b, cellOf mk a = cellOf mk b → a = b) (fresh : Nat → Page)
    (calls : List (Option T)) : ReadsBack type mk fresh calls ↔ CrampedAgree fresh calls := by
  unfold ReadsBack
  rw [fromColumnar_write hs htype, crampedAgree_iff]
  constructor
  · intro h
    have hdata : (storedRows fresh {} calls).map (fun call => [cellOf mk call]) =
        calls.map fun call => [cellOf mk call] := congrArg Table.data (Except.ok.inj h)
    exact List.map_injective_iff.mpr (fun a b hab => hmk a b (List.singleton_inj.mp hab)) hdata
  · intro h
    rw [h]

theorem readsBack_and_apart_iff {type : DataType} {mk : T → Data} (hs : Pod.size T = 8)
    (htype : readPage type = readFixed (dataBegin T) mk)
    (hmk : ∀ a b, cellOf mk a = cellOf mk b → a = b) (fresh : Nat → Page)
    (calls : List (Option T)) :
    (ReadsBack type mk fresh calls ∧ ∀ p ∈ write fresh calls, Apart T p) ↔
      NeverCramped fresh calls := by
  obtain ⟨-, -, -, hapart⟩ := write_reads fresh hs calls
  rw [← hapart, ← neverCramped_iff, readsBack_iff hs htype hmk]
  refine ⟨And.right, fun h => ⟨fun before value after heq hc => ?_, h⟩⟩
  exact absurd hc (h before value after heq)

theorem cellOf_int64_inj (a b : Option Int64) (h : cellOf Data.int64 a = cellOf Data.int64 b) :
    a = b := by
  cases a <;> cases b <;> simp_all [cellOf]

theorem cellOf_fp64_inj (a b : Option UInt64) (h : cellOf Data.fp64 a = cellOf Data.fp64 b) :
    a = b := by
  cases a <;> cases b <;> simp_all [cellOf]

/-- Reading an `INT64` or `FP64` column back gives the inserted values and NULLs, with values and
bitmap apart on every page, if and only if no inserted value finds its page cramped. The reading
alone is right if and only if every cramped value has in its high bytes what the bitmap puts
there. -/
theorem decode_wide_iff (fresh : Nat → Page) :
    (∀ calls : List (Option Int64),
      ((ReadsBack .int64 Data.int64 fresh calls ∧ ∀ p ∈ write fresh calls, Apart Int64 p) ↔
        NeverCramped fresh calls) ∧
      (ReadsBack .int64 Data.int64 fresh calls ↔ CrampedAgree fresh calls)) ∧
    ∀ calls : List (Option UInt64),
      ((ReadsBack .fp64 Data.fp64 fresh calls ∧ ∀ p ∈ write fresh calls, Apart UInt64 p) ↔
        NeverCramped fresh calls) ∧
      (ReadsBack .fp64 Data.fp64 fresh calls ↔ CrampedAgree fresh calls) :=
  ⟨fun calls => ⟨readsBack_and_apart_iff rfl rfl cellOf_int64_inj fresh calls,
      readsBack_iff rfl rfl cellOf_int64_inj fresh calls⟩,
    fun calls => ⟨readsBack_and_apart_iff rfl rfl cellOf_fp64_inj fresh calls,
      readsBack_iff rfl rfl cellOf_fp64_inj fresh calls⟩⟩

/-- Calls whose rows fit on one page stay on it. -/
theorem filling_of_fits (fresh : Nat → Page) (hs : Pod.size T = 8) (calls : List (Option T))
    (hfit : dataBegin T + 8 * calls.reduceOption.length + (calls.length + 7) / 8 ≤ 8192) :
    ∃ cur, Filling fresh calls [] cur (calls.foldl (put fresh) {}) := by
  have hbegin : dataBegin T = 8 := by simp [dataBegin, hs]
  induction calls using List.reverseRecOn with
  | nil => exact ⟨_, filling_nil ColumnPages.at_empty rfl rfl rfl rfl (by omega)⟩
  | append_singleton calls call ih =>
    have hlen : (calls ++ [call]).length = calls.length + 1 := by simp
    rw [List.foldl_concat]
    cases call with
    | some value =>
      have hred : (calls ++ [some value]).reduceOption.length = calls.reduceOption.length + 1 := by
        simp [List.reduceOption_append]
      obtain ⟨cur, h⟩ := ih (by omega)
      have hend := h.dataEnd
      have hrows := h.numRows
      rw [hs] at hend
      show ∃ cur, Filling fresh _ [] cur (ColumnInserter.insert fresh _ value)
      unfold ColumnInserter.insert
      simp only [if_neg (show ¬ (calls.foldl (put fresh) {}).dataEnd + 4 +
        (calls.foldl (put fresh) {}).numRows / 8 + 1 > 8192 by omega)]
      exact ⟨_, h.pushValue value (by rw [hs]; omega)⟩
    | none =>
      have hred : (calls ++ [none]).reduceOption.length = calls.reduceOption.length := by
        simp [List.reduceOption_append]
      obtain ⟨cur, h⟩ := ih (by omega)
      have hend := h.dataEnd
      have hrows := h.numRows
      rw [hs] at hend
      show ∃ cur, Filling fresh _ [] cur (ColumnInserter.insertNull fresh _)
      unfold ColumnInserter.insertNull
      simp only [if_neg (show ¬ (calls.foldl (put fresh) {}).dataEnd +
        (calls.foldl (put fresh) {}).numRows / 8 + 1 > 8192 by omega)]
      exact ⟨_, h.pushNull (by rw [hs]; omega)⟩

/-- A row of ones is read back as ones only if the byte over its highest one is. -/
theorem ofBytes_ones (b : UInt8) (hb : Pod.ofBytes
    ((Pod.toBytes (-1 : Int64)).take 7 ++ [b]) = (-1 : Int64)) : b = 255 := by
  have hall : ∀ n < 256, Pod.ofBytes ((Pod.toBytes (-1 : Int64)).take 7 ++ [UInt8.ofNat n]) =
      (-1 : Int64) → n = 255 := by
    decide +kernel
  rw [← UInt8.toNat_inj]
  exact hall b.toNat b.toNat_lt (by rwa [UInt8.ofNat_toNat])

/-- Some NULLs and then values of all ones, up to one that overlaps the first byte of the bitmap:
this byte says that the first row is NULL. -/
theorem not_crampedAgree_ones (fresh : Nat → Page) {m n : Nat} (hm : 0 < m)
    (hover : 8 + 8 * n + 8 + (m + n) / 8 + 1 = 8193) : ¬ CrampedAgree fresh
      (List.replicate m none ++ List.replicate n (some (-1 : Int64)) ++ [some (-1)]) := by
  intro hagree
  have hbegin : dataBegin Int64 = 8 := rfl
  have hsize : Pod.size Int64 = 8 := rfl
  have hred : (List.replicate m none ++ List.replicate n (some (-1 : Int64))).reduceOption.length =
      n := by
    rw [List.reduceOption_append, List.reduceOption_replicate_none, List.nil_append,
      List.reduceOption_length_eq_iff.mpr (by simp), List.length_replicate]
  have hlen : (List.replicate m none ++ List.replicate n (some (-1 : Int64))).length = m + n := by
    simp
  have hvalue := hagree _ (-1) [] rfl
  generalize hbefore : List.replicate m none ++ List.replicate n (some (-1 : Int64)) = before at *
  obtain ⟨cur, h⟩ := filling_of_fits fresh hsize before (by rw [hred, hlen, hbegin]; omega)
  have hend : (before.foldl (put fresh) {}).dataEnd = 8 + 8 * n := by
    rw [h.dataEnd, hred, hsize, hbegin]
  have hrows : (before.foldl (put fresh) {}).numRows = m + n := by rw [h.numRows, hlen]
  have hoverlap : (before.foldl (put fresh) {}).overlap = 1 := by
    unfold overlap
    rw [hend, hrows, hsize]
    omega
  have hcramped : (before.foldl (put fresh) {}).Cramped := by
    unfold Cramped
    rw [hend, hrows, hsize]
    omega
  replace hvalue := hvalue hcramped
  rw [overlaid, hoverlap] at hvalue
  have hbyte : (before.foldl (put fresh) {}).bitmap.byte (0 + 0) = 255 := ofBytes_ones _ hvalue
  have hbit : bitAt (before.foldl (put fresh) {}).bitmap.byte 0 = before[0].isSome :=
    h.bits 0 (by omega)
  rw [bitAt, show 0 / 8 = 0 + 0 from rfl, hbyte] at hbit
  have hfirst : before[0] = none := by
    simp [← hbefore, hm]
  rw [hfirst] at hbit
  exact absurd hbit (by decide)

/-- Eighteen NULLs and `1007` values of all ones are not read back. -/
theorem not_readsBack_ones : ¬ ReadsBack .int64 Data.int64 (fun _ => Buf.zero 8192)
    (List.replicate 18 none ++ List.replicate 1006 (some (-1)) ++ [some (-1)]) := by
  rw [readsBack_iff rfl rfl cellOf_int64_inj]
  exact not_crampedAgree_ones _ (by omega) (by omega)

end ColumnInserter

end HashJoin
