import HashJoin.StringDeref

/-!
# References to strings

A reference names the page and the slot at which the scan has found a string, in fields of 16 bits.
A string that is longer than a page is read from its first page on, up to a page that does not
continue it.
-/

namespace HashJoin

open Bytes Chunks

/-! ## The slots of a column -/

/-- The page and the offset that the scan is at for each row of a page. -/
def pageSlots (idx : Nat) (p : Page) : List (Nat × Nat) :=
  let nr := p.u16 0
  if nr = 0xffff then [(idx, 4)]
  else if nr = 0xfffe then []
  else
    pushedValues (getBitmap (Page.bitmap p nr)) (fun cur => (idx, 4 + 2 * cur))
      (fun _ => (idx, 0xFFFF)) nr 0 0

/-- The slots of the pages from `idx` on. -/
def columnSlots : List Page → (idx : Nat) → List (Nat × Nat)
  | [], _ => []
  | p :: ps, idx => pageSlots idx p ++ columnSlots ps (idx + 1)

/-- The reference to a slot. -/
def slotRef (tableId colId : Nat) (slot : Nat × Nat) : Value :=
  Value.str tableId colId slot.1 slot.2

theorem scanVarcharPage_slots (tableId colId idx : Nat) (p : Page) (b : Buffers) :
    scanVarcharPage tableId colId idx b p =
      ((pageSlots idx p).map (slotRef tableId colId)).foldl Buffers.push b := by
  unfold scanVarcharPage pageSlots
  simp only
  split
  · rfl
  · split
    · rfl
    · rw [scanRows_eq_foldl, map_pushedValues]
      rfl

theorem scanVarchar_slots (tableId colId idx : Nat) (pages : List Page) (b : Buffers) :
    (pages.zipIdx idx).foldl (fun b pi => scanVarcharPage tableId colId pi.2 b pi.1) b =
      ((columnSlots pages idx).map (slotRef tableId colId)).foldl Buffers.push b := by
  induction pages generalizing idx b with
  | nil => rfl
  | cons p pages ih =>
    rw [List.zipIdx_cons, List.foldl_cons, columnSlots, List.map_append, List.foldl_append,
      scanVarcharPage_slots, ih]

/-- Scanning a string column gives the references to its slots. -/
theorem buildColumnInserter_slots (tableId colId : Nat) (pages : List Page)
    (junk : Nat → Nat → Int32) :
    (buildColumnInserter tableId colId ⟨.varchar, pages⟩ .varchar junk).Valid ∧
      (buildColumnInserter tableId colId ⟨.varchar, pages⟩ .varchar junk).values =
        (columnSlots pages 0).map (slotRef tableId colId) := by
  have hholds := Buffers.holds_empty.pushAll ((columnSlots pages 0).map (slotRef tableId colId))
  rw [← scanVarchar_slots, List.nil_append] at hholds
  exact hholds.column .varchar

theorem columnSlots_append (ps qs : List Page) (idx : Nat) :
    columnSlots (ps ++ qs) idx = columnSlots ps idx ++ columnSlots qs (idx + ps.length) := by
  induction ps generalizing idx with
  | nil => rfl
  | cons p ps ih =>
    rw [List.cons_append, columnSlots, columnSlots, ih, List.append_assoc, List.length_cons]
    congr 3
    omega

theorem mem_columnSlots {pages : List Page} {idx : Nat} {slot : Nat × Nat} :
    slot ∈ columnSlots pages idx ↔ ∃ k p, pages[k]? = some p ∧ slot ∈ pageSlots (idx + k) p := by
  induction pages generalizing idx with
  | nil => simp [columnSlots]
  | cons p pages ih =>
    unfold columnSlots
    rw [List.mem_append, ih]
    constructor
    · rintro (h | ⟨k, q, hq, h⟩)
      · exact ⟨0, p, rfl, h⟩
      · exact ⟨k + 1, q, hq, by rwa [Nat.add_right_comm, Nat.add_assoc] at h⟩
    · rintro ⟨k, q, hq, h⟩
      cases k with
      | zero => exact .inl (Option.some.inj hq ▸ h)
      | succ k => exact .inr ⟨k, q, hq, by rwa [Nat.add_right_comm, Nat.add_assoc]⟩

/-! ## Slots and rows -/

/-- The slot of a row: one that fits 16 bits, and is `0xFFFF` for a NULL. -/
structure SlotOf (slot : Nat × Nat) (row : Option (List UInt8)) : Prop where
  pos : 0 < slot.2
  lt : slot.2 < 65536
  null : slot.2 = 0xFFFF ↔ row = none

theorem slotOf_rowValues (idx : Nat) (rows : List (Option (List UInt8))) (i cur : Nat)
    (h : cur + rows.reduceOption.length ≤ 4096) :
    List.Forall₂ SlotOf (rowValues (fun cur => (idx, 4 + 2 * cur)) (fun _ => (idx, 0xFFFF)) rows i
      cur) rows := by
  induction rows generalizing i cur with
  | nil => exact .nil
  | cons row rows ih =>
    cases row with
    | none => exact .cons ⟨by simp, by simp, by simp⟩ (ih (i + 1) cur h)
    | some s =>
      rw [List.reduceOption_cons_of_some, List.length_cons] at h
      have hlt : 4 + 2 * cur < 0xFFFF := by omega
      refine .cons ⟨?_, hlt.trans (by decide), fun heq => ?_, nofun⟩
        (ih (i + 1) (cur + 1) (by omega))
      · exact Nat.add_pos_left (by decide) _
      · exact absurd heq hlt.ne

theorem StringPage.pageSlots {rows : List (Option (List UInt8))} {p : Page} (h : StringPage rows p)
    (idx : Nat) : pageSlots idx p =
      rowValues (fun cur => (idx, 4 + 2 * cur)) (fun _ => (idx, 0xFFFF)) rows 0 0 := by
  have hlt := h.numRows_lt
  unfold HashJoin.pageSlots
  simp only
  rw [if_neg (by omega), if_neg (by omega), h.numRows]
  apply pushedValues_eq _ _ rows 0 0
  intro k hk
  rw [Nat.zero_add]
  exact h.bits k hk

/-- A long string has the slot of its first page. -/
theorem LongPages.columnSlots {s : List UInt8} {pages : List Page} (h : LongPages s pages)
    (idx : Nat) : columnSlots pages idx = [(idx, 4)] := by
  obtain ⟨c, cs, p, ps, rfl, -, hp, hps⟩ := h.split
  have hrest : ∀ idx, HashJoin.columnSlots ps idx = [] := by
    intro idx
    clear h
    induction hps generalizing idx with
    | nil => rfl
    | cons hq _ ih =>
      unfold HashJoin.columnSlots
      rw [ih, HashJoin.pageSlots, hq.marker]
      rfl
  unfold HashJoin.columnSlots
  rw [hrest, HashJoin.pageSlots, hp.marker]
  rfl

/-- There is a slot for every row. -/
theorem StringPages.slots {segs : List Segment} {pages : List Page} (h : StringPages segs pages)
    (idx : Nat) : List.Forall₂ SlotOf (columnSlots pages idx) (segs.flatMap Segment.values) := by
  induction h generalizing idx with
  | nil => exact .nil
  | @cons seg segs qs ps hq _ ih =>
    rw [columnSlots_append, List.flatMap_cons]
    refine List.rel_append ?_ (ih _)
    cases seg with
    | short rows =>
      obtain ⟨p, rfl, hp⟩ := hq
      have hfits := hp.fits
      unfold columnSlots
      rw [columnSlots, List.append_nil, hp.pageSlots]
      exact slotOf_rowValues idx rows 0 0 (by omega)
    | long s =>
      rw [LongPages.columnSlots hq.2]
      exact .cons ⟨by simp, by simp, by simp⟩ .nil

/-! ## Page numbers -/

/-- The page has a row that is not NULL, or starts a long string. -/
def HoldsString (p : Page) : Prop := p.u16 0 = 0xffff ∨ p.u16 0 ≠ 0xfffe ∧ p.u16 2 ≠ 0

theorem mem_rowValues_value {α β : Type} {value null : Nat → β} {rows : List (Option α)}
    (h : rows.reduceOption ≠ []) (i cur : Nat) : value cur ∈ rowValues value null rows i cur := by
  induction rows generalizing i with
  | nil => exact absurd rfl h
  | cons row rows ih =>
    cases row with
    | none => exact List.mem_cons_of_mem _ (ih h (i + 1))
    | some v => exact List.mem_cons_self

theorem mem_rowValues_null {α β : Type} {value null : Nat → β} {rows : List (Option α)}
    (h : rows.reduceOption = []) (i cur : Nat) {x : β} (hx : x ∈ rowValues value null rows i cur) :
    ∃ k, x = null k := by
  induction rows generalizing i with
  | nil => simp [rowValues] at hx
  | cons row rows ih =>
    cases row with
    | none =>
      rcases List.mem_cons.mp hx with hx | hx
      · exact ⟨i, hx⟩
      · exact ih h (i + 1) hx
    | some v => simp [List.reduceOption_cons_of_some] at h

/-- The pages with strings are those with a slot for one. -/
theorem StringPages.holdsString_iff {segs : List Segment} {pages : List Page}
    (h : StringPages segs pages) {p : Page} (hp : p ∈ pages) (idx : Nat) :
    HoldsString p ↔ ∃ slot ∈ pageSlots idx p, slot.2 ≠ 0xFFFF := by
  rcases h.page_of_mem hp with ⟨rows, -, hrows⟩ | ⟨s, -, hmarked⟩
  · have hlt := hrows.numRows_lt
    rw [hrows.pageSlots, HoldsString, hrows.numNonNull, ne_eq, ne_eq, List.length_eq_zero_iff]
    constructor
    · rintro (hlong | ⟨-, hne⟩)
      · omega
      · exact ⟨_, mem_rowValues_value hne 0 0, by simp⟩
    · rintro ⟨slot, hslot, hne⟩
      refine .inr ⟨by omega, fun hnil => ?_⟩
      obtain ⟨k, rfl⟩ := mem_rowValues_null hnil 0 0 hslot
      exact hne rfl
  · rcases hmarked with hmarker | hmarker
    · unfold HoldsString
      rw [pageSlots, hmarker]
      simp
    · unfold HoldsString
      rw [pageSlots, hmarker]
      simp

theorem mem_pushedValues {β : Type} {bit : Nat → Bool} {value null : Nat → β}
    {remaining i cur : Nat} {x : β} (hx : x ∈ pushedValues bit value null remaining i cur) :
    (∃ k, x = value k) ∨ ∃ k, x = null k := by
  induction remaining generalizing i cur with
  | zero => simp [pushedValues] at hx
  | succ remaining ih =>
    rw [pushedValues] at hx
    split at hx
    · rcases List.mem_cons.mp hx with hx | hx
      · exact .inl ⟨cur, hx⟩
      · exact ih hx
    · rcases List.mem_cons.mp hx with hx | hx
      · exact .inr ⟨i, hx⟩
      · exact ih hx

theorem fst_of_mem_pageSlots {idx : Nat} {p : Page} {slot : Nat × Nat}
    (h : slot ∈ pageSlots idx p) : slot.1 = idx := by
  unfold pageSlots at h
  simp only at h
  split at h
  · rw [List.mem_singleton.mp h]
  · split at h
    · simp at h
    · rcases mem_pushedValues h with ⟨k, rfl⟩ | ⟨k, rfl⟩
      · rfl
      · rfl

/-- The slots of strings are on the first 65536 pages exactly when no later page has a string. -/
theorem StringPages.slots_lt_iff {segs : List Segment} {pages : List Page}
    (h : StringPages segs pages) :
    (∀ slot ∈ columnSlots pages 0, slot.2 ≠ 0xFFFF → slot.1 < 65536) ↔
      ∀ idx p, pages[idx]? = some p → 65536 ≤ idx → ¬ HoldsString p := by
  constructor
  · intro hslots idx p hp hidx hholds
    obtain ⟨slot, hslot, hne⟩ := (h.holdsString_iff (List.mem_of_getElem? hp) idx).mp hholds
    have hmem : slot ∈ columnSlots pages 0 :=
      mem_columnSlots.mpr ⟨idx, p, hp, by rwa [Nat.zero_add]⟩
    have hlt := hslots slot hmem hne
    rw [fst_of_mem_pageSlots hslot] at hlt
    omega
  · intro hpages slot hslot hne
    obtain ⟨idx, p, hp, hslot⟩ := mem_columnSlots.mp hslot
    rw [Nat.zero_add] at hslot
    rw [fst_of_mem_pageSlots hslot]
    by_contra hge
    exact hpages idx p hp (by omega)
      ((h.holdsString_iff (List.mem_of_getElem? hp) idx).mpr ⟨slot, hslot, hne⟩)

/-! ## References -/

/-- There is one reference for each row, in their order, those of NULL rows are found to be NULL,
and the page and the offset in any other are those of its slot. -/
def RefsRight (tableId colId : Nat) (rows : List (Option (List UInt8))) (pages : List Page) :
    Prop :=
  ∀ junk, (buildColumnInserter tableId colId ⟨.varchar, pages⟩ .varchar junk).numRows =
      rows.length ∧
    ∀ i row, rows[i]? = some row → ∃ v slot,
      (buildColumnInserter tableId colId ⟨.varchar, pages⟩ .varchar junk).getValue i = .ok v ∧
      (columnSlots pages 0)[i]? = some slot ∧ (v.isNull = true ↔ row = none) ∧
      (row ≠ none → (v.pageId, v.offset) = slot)

/-- The reference of a row. -/
theorem StringPages.getValue {segs : List Segment} {pages : List Page} (h : StringPages segs pages)
    (tableId colId : Nat) (junk : Nat → Nat → Int32) {i : Nat} {row : Option (List UInt8)}
    (hrow : (segs.flatMap Segment.values)[i]? = some row) : ∃ slot,
      (buildColumnInserter tableId colId ⟨.varchar, pages⟩ .varchar junk).getValue i =
        .ok (slotRef tableId colId slot) ∧
      (columnSlots pages 0)[i]? = some slot ∧ SlotOf slot row := by
  obtain ⟨hvalid, hvalues⟩ := buildColumnInserter_slots tableId colId pages junk
  have hslots := h.slots 0
  obtain ⟨hi, rfl⟩ := List.getElem?_eq_some_iff.mp hrow
  have hi' : i < (columnSlots pages 0).length := hslots.length_eq ▸ hi
  have hlt : i <
      (buildColumnInserter tableId colId ⟨.varchar, pages⟩ .varchar junk).values.length := by
    rwa [hvalues, List.length_map]
  refine ⟨(columnSlots pages 0)[i], ?_, List.getElem?_eq_getElem hi', hslots.get hi' hi⟩
  rw [hvalid.getValue hlt]
  simp only [hvalues, List.getElem_map]

/-- References are right exactly when the page numbers of all strings fit 16 bits. -/
theorem refsRight_iff_slots {segs : List Segment} {pages : List Page} (h : StringPages segs pages)
    (tableId colId : Nat) : RefsRight tableId colId (segs.flatMap Segment.values) pages ↔
      ∀ slot ∈ columnSlots pages 0, slot.2 ≠ 0xFFFF → slot.1 < 65536 := by
  have hnull : ∀ slot row, SlotOf slot row →
      ((slotRef tableId colId slot).isNull = true ↔ row = none) := fun slot row hslot => by
    unfold slotRef
    rw [Value.isNull_str hslot.pos hslot.lt, decide_eq_true_eq, hslot.null]
  have hpair : ∀ slot row, SlotOf slot row →
      (((slotRef tableId colId slot).pageId, (slotRef tableId colId slot).offset) = slot ↔
        slot.1 < 65536) := fun slot row hslot => by
    have hoffset : slot.2 % 65536 = slot.2 := Nat.mod_eq_of_lt hslot.lt
    unfold slotRef
    rw [Value.pageId_str, Value.offset_str, hoffset, Prod.ext_iff]
    simp only [and_true]
    exact ⟨fun heq => heq ▸ Nat.mod_lt _ (by decide), Nat.mod_eq_of_lt⟩
  have hslots := h.slots 0
  constructor
  · intro hrefs slot hslot hne
    obtain ⟨i, hi, rfl⟩ := List.mem_iff_getElem.mp hslot
    have hi' : i < (segs.flatMap Segment.values).length := hslots.length_eq ▸ hi
    have hget : (segs.flatMap Segment.values)[i]? = some _ := List.getElem?_eq_getElem hi'
    obtain ⟨slot, hvalue, hslot, hof⟩ := h.getValue tableId colId (fun _ _ => 0) hget
    obtain ⟨v, slot', hv, hslot', -, hpage⟩ := (hrefs fun _ _ => 0).2 i _ hget
    obtain rfl : slot = slot' := Option.some.inj (hslot.symm.trans hslot')
    obtain rfl : slotRef tableId colId slot = v := Except.ok.inj (hvalue.symm.trans hv)
    rw [List.getElem?_eq_getElem hi] at hslot
    rw [Option.some.inj hslot] at hne ⊢
    exact (hpair _ _ hof).mp (hpage (mt hof.null.mpr hne))
  · intro hlt junk
    obtain ⟨hvalid, hvalues⟩ := buildColumnInserter_slots tableId colId pages junk
    refine ⟨?_, fun i row hrow => ?_⟩
    · rw [hvalid.numRows, hvalues, List.length_map, hslots.length_eq]
    · obtain ⟨slot, hvalue, hslot, hof⟩ := h.getValue tableId colId junk hrow
      refine ⟨_, slot, hvalue, hslot, hnull slot row hof, fun hne => (hpair slot row hof).mpr ?_⟩
      exact hlt slot (List.mem_of_getElem? hslot) (mt hof.null.mp hne)

/-- The references of a string column of any size are right exactly when no page from number 65536
on holds a string. -/
theorem refsRight_iff {segs : List Segment} {pages : List Page} (h : StringPages segs pages)
    (tableId colId : Nat) : RefsRight tableId colId (segs.flatMap Segment.values) pages ↔
      ∀ idx p, pages[idx]? = some p → 65536 ≤ idx → ¬ HoldsString p := by
  rw [refsRight_iff_slots h, h.slots_lt_iff]

theorem refsRight_aThenNull : RefsRight 0 0 [some [97], none]
    (StringInserter.write (fun _ => Buf.zero 8192) [some [97], none]) := by
  obtain ⟨segs, hsegs, hpages, -⟩ :=
    StringInserter.write_ok (fun _ => Buf.zero 8192) [some [97], none]
  have hlen : (StringInserter.write (fun _ => Buf.zero 8192) [some [97], none]).length = 1 := rfl
  rw [hsegs] at hpages hlen ⊢
  apply (refsRight_iff hpages 0 0).mpr
  intro idx p hp hidx
  have hlt := (List.getElem?_eq_some_iff.mp hp).1
  omega

theorem reduceOption_of_some {α : Type} {rows : List (Option α)} {a : α}
    (h : ∀ row ∈ rows, row = some a) : rows.reduceOption = List.replicate rows.length a := by
  induction rows with
  | nil => rfl
  | cons row rows ih =>
    rw [List.forall_mem_cons] at h
    rw [h.1, List.reduceOption_cons_of_some, ih h.2, List.length_cons, List.replicate_succ]

/-- At most one string of 8185 bytes is on a page. -/
theorem StringPage.length_le_one {s : List UInt8} (hs : s.length = 8185)
    {rows : List (Option (List UInt8))} {p : Page} (h : StringPage rows p)
    (hrows : ∀ row ∈ rows, row = some s) : rows.length ≤ 1 := by
  have hfits := h.fits
  rw [reduceOption_of_some hrows, List.length_flatten, List.map_replicate, List.sum_replicate, hs,
    smul_eq_mul, List.length_replicate] at hfits
  omega

/-- 65537 strings, each of which fills a page, take more pages than a reference can number. -/
theorem not_refsRight_of_full {s : List UInt8} (hs : s.length = 8185) {pages : List Page}
    (hw : WrittenStrings (List.replicate 65537 (some s)) pages) (tableId colId : Nat) :
    ¬ RefsRight tableId colId (List.replicate 65537 (some s)) pages := by
  obtain ⟨segs, hsegs, hpages, -⟩ := hw.segments
  obtain ⟨chunks, hchunks, hforall⟩ := hw.chunks fun t ht => by
    have heq : some t = some s := List.eq_of_mem_replicate ht
    rw [Option.some.inj heq, hs]
  have hrow : ∀ c ∈ chunks, ∀ row ∈ c, row = some s := fun c hc row hrow =>
    List.eq_of_mem_replicate (hchunks ▸ List.mem_flatten_of_mem hc hrow)
  rw [hsegs, refsRight_iff_slots hpages, hpages.slots_lt_iff]
  intro hlate
  have hone : ∀ c ∈ chunks, c.length ≤ 1 := by
    intro c hc
    obtain ⟨p, -, hp⟩ := exists_of_forall₂ hforall hc
    exact hp.length_le_one hs (hrow c hc)
  have hnil : ∀ c ∈ chunks.drop 65536, c = [] := by
    intro c hc
    obtain ⟨i, hi, rfl⟩ := List.mem_iff_getElem.mp hc
    rw [List.length_drop] at hi
    have hi' : 65536 + i < pages.length := hforall.length_eq ▸ (by omega)
    have hpage := hforall.get (by omega) hi'
    simp only [List.get_eq_getElem] at hpage
    have hno := hlate (65536 + i) pages[65536 + i] (List.getElem?_eq_getElem hi') (by omega)
    have hlt := hpage.numRows_lt
    rw [List.getElem_drop]
    rw [HoldsString, not_or, not_and_or, not_not, not_not, hpage.numNonNull] at hno
    have hred : chunks[65536 + i].reduceOption = [] :=
      List.length_eq_zero_iff.mp (hno.2.resolve_left (by omega))
    rw [reduceOption_of_some (hrow _ (List.getElem_mem (by omega))),
      List.replicate_eq_nil_iff] at hred
    exact List.length_eq_zero_iff.mp hred
  have hlen := congrArg List.length hchunks
  rw [List.length_replicate, ← List.take_append_drop 65536 chunks, List.flatten_append,
    List.flatten_eq_nil_iff.mpr hnil, List.append_nil, List.length_flatten] at hlen
  have hsum : ((chunks.take 65536).map List.length).sum ≤ (chunks.take 65536).length • 1 := by
    refine List.sum_le_card_nsmul _ _ ?_ |>.trans_eq (by rw [List.length_map])
    intro n hn
    obtain ⟨c, hc, rfl⟩ := List.mem_map.mp hn
    exact hone c (List.mem_of_mem_take hc)
  rw [smul_eq_mul, List.length_take] at hsum
  omega

theorem not_refsRight_fullPages :
    WrittenStrings (List.replicate 65537 (some (List.replicate 8185 97)))
      (StringInserter.write (fun _ => Buf.zero 8192)
        (List.replicate 65537 (some (List.replicate 8185 97)))) ∧
    ¬ RefsRight 0 0 (List.replicate 65537 (some (List.replicate 8185 97)))
      (StringInserter.write (fun _ => Buf.zero 8192)
        (List.replicate 65537 (some (List.replicate 8185 97)))) := by
  have hw : WrittenStrings (List.replicate 65537 (some (List.replicate 8185 97)))
      (StringInserter.write (fun _ => Buf.zero 8192)
        (List.replicate 65537 (some (List.replicate 8185 97)))) := ⟨_, .inl rfl⟩
  exact ⟨hw, not_refsRight_of_full List.length_replicate hw 0 0⟩

/-! ## Long strings -/

/-- Where a long string is. -/
theorem StringPages.at_long {segs : List Segment} {pages : List Page} (h : StringPages segs pages)
    {i : Nat} {s : List UInt8} (hi : (segs.flatMap Segment.values)[i]? = some (some s))
    (hs : 8192 - 7 < s.length) : ∃ pre post ps qs rs, segs = pre ++ .long s :: post ∧
      pages = ps ++ qs ++ rs ∧ StringPages pre ps ∧ LongPages s qs ∧ StringPages post rs ∧
      (pre.flatMap Segment.values).length = i := by
  induction h generalizing i with
  | nil => simp at hi
  | @cons seg segs qs ps hq hrest ih =>
    rw [List.flatMap_cons] at hi
    by_cases hlt : i < seg.values.length
    · rw [List.getElem?_append_left hlt] at hi
      cases seg with
      | short rows =>
        -- A short page has no room for the string.
        obtain ⟨p, rfl, hp⟩ := hq
        have hfits := hp.fits
        have hmem : s ∈ rows.reduceOption :=
          List.reduceOption_mem_iff.mpr (List.mem_of_getElem? hi)
        have hle := (List.sublist_flatten_of_mem hmem).length_le
        have hpos := List.length_pos_of_mem hmem
        have hrows := List.reduceOption_length_le rows
        omega
      | long t =>
        obtain rfl : i = 0 := by simpa [Segment.values] using hlt
        have heq : t = s := by simpa [Segment.values] using hi
        rw [heq] at hq
        exact ⟨[], segs, [], qs, ps, by rw [heq]; rfl, rfl, .nil, hq.2, hrest, rfl⟩
    · rw [List.getElem?_append_right (by omega)] at hi
      obtain ⟨pre, post, ps', qs', rs, rfl, rfl, hpre, hlong, hpost, hlen⟩ := ih hi
      refine ⟨seg :: pre, post, qs ++ ps', qs', rs, rfl, by simp only [List.append_assoc],
        .cons hq hpre, hlong, hpost, ?_⟩
      rw [List.flatMap_cons, List.length_append, hlen]
      omega

/-- The walk over the pages that continue a string. -/
theorem appendLong_chain {column : Column} {cs : List (List UInt8)} {ps rest : List Page}
    (h : List.Forall₂ (LongPage 0xfffe) cs ps) {k : Nat} (hdrop : column.pages.drop k = ps ++ rest)
    (hk : k + ps.length ≤ 65536) (fuel : Nat) (str : List UInt8) :
    appendLong column (fuel + ps.length) (k % 65536) str =
      appendLong column fuel ((k + ps.length) % 65536) (str ++ cs.flatten) := by
  induction h generalizing k str with
  | nil => simp
  | @cons c p cs ps hp _ ih =>
    rw [List.length_cons] at hk
    have hget : column.pages[k]? = some p := by
      have hhead := congrArg (·[0]?) hdrop
      simpa using hhead
    have hnext : column.pages.drop (k + 1) = ps ++ rest := by
      rw [← List.drop_drop, hdrop]
      rfl
    rw [List.length_cons, ← Nat.add_assoc, appendLong, Nat.mod_eq_of_lt (by omega : k < 65536),
      at?_eq_ok hget, ok_bind, if_pos hp.marker, readLong_ok hp, ok_bind, ih hnext (by omega),
      List.flatten_cons, List.append_assoc]
    congr 2
    omega

/-- The first page of a column does not continue a string. -/
theorem StringPages.head_marker {segs : List Segment} {p : Page} {ps : List Page}
    (h : StringPages segs (p :: ps)) : p.u16 0 ≠ 0xfffe := by
  generalize hpages : p :: ps = pages at h
  cases h with
  | nil => cases hpages
  | @cons seg segs qs ps' hq _ =>
    cases seg with
    | short rows =>
      obtain ⟨q, rfl, hq⟩ := hq
      have hlt := hq.numRows_lt
      obtain rfl := (List.cons.inj hpages).1
      omega
    | long s =>
      obtain ⟨c, cs, q, qs, rfl, -, hq, -⟩ := hq.2.split
      obtain rfl := (List.cons.inj hpages).1
      rw [hq.marker]
      decide

/-- What is read for the reference to a long string. -/
theorem derefString_long {inputs : List ColumnarTable} {table : ColumnarTable} {tableId colId : Nat}
    (ht : inputs[tableId % 65536]? = some table) {ps qs rs : List Page}
    (hc : table.columns[colId % 65536]? = some ⟨.varchar, ps ++ qs ++ rs⟩) {s : List UInt8}
    (hlong : LongPages s qs) {segs : List Segment} (hpages : StringPages segs (ps ++ qs ++ rs))
    (hlen : (ps ++ qs ++ rs).length ≤ 65536) {post : List Segment} (hpost : StringPages post rs) :
    derefString inputs (Value.str tableId colId ps.length 4) =
      if rs ≠ [] ∨ (ps ++ qs ++ rs).length = 65536 then .ok s else .error .outOfRange := by
  obtain ⟨c, cs, p, qs, rfl, rfl, hp, hqs⟩ := hlong.split
  simp only [List.length_append, List.length_cons] at hlen
  have hget : (ps ++ p :: qs ++ rs)[ps.length]? = some p := by simp
  have hdrop : (ps ++ p :: qs ++ rs).drop (ps.length + 1) = qs ++ rs := by
    rw [List.append_assoc, ← List.drop_drop, List.drop_left]
    rfl
  obtain ⟨fuel, hfuel⟩ : ∃ fuel, 65536 = fuel + 1 + qs.length := ⟨65535 - qs.length, by omega⟩
  have hwalk : derefString inputs (Value.str tableId colId ps.length 4) =
      appendLong ⟨.varchar, ps ++ p :: qs ++ rs⟩ (fuel + 1)
        ((ps.length + 1 + qs.length) % 65536) (c ++ cs.flatten) := by
    rw [← appendLong_chain hqs hdrop (by omega), ← hfuel, derefString, Value.tableId_str,
      at?_eq_ok ht, ok_bind, Value.colId_str, at?_eq_ok hc, ok_bind, Value.pageId_str,
      Nat.mod_eq_of_lt (by omega : ps.length < 65536), at?_eq_ok hget, ok_bind, if_pos hp.marker,
      readLong_ok hp, ok_bind]
  -- The walk ends at a page that does not continue the string.
  have hstop : ∀ k q, (ps ++ p :: qs ++ rs)[k]? = some q → q.u16 0 ≠ 0xfffe →
      (ps.length + 1 + qs.length) % 65536 = k →
      derefString inputs (Value.str tableId colId ps.length 4) = .ok (c ++ cs.flatten) := by
    intro k q hq hmarker hk
    rw [hwalk, hk, appendLong, at?_eq_ok hq, ok_bind, if_neg hmarker]
  cases rs with
  | cons r rs =>
    rw [if_pos (.inl (by simp))]
    refine hstop (ps ++ p :: qs).length r ?_ hpost.head_marker ?_
    · rw [List.getElem?_append_right le_rfl, Nat.sub_self]
      rfl
    · simp only [List.length_append, List.length_cons] at hlen ⊢
      omega
  | nil =>
    simp only [ne_eq, not_true_eq_false, false_or, List.append_nil] at hpages hstop hwalk ⊢
    by_cases hfull : (ps ++ p :: qs).length = 65536
    · -- The page number wraps to the first page.
      rw [if_pos hfull]
      obtain ⟨q, rest, hq⟩ : ∃ q rest, ps ++ p :: qs = q :: rest := by
        cases ps with
        | nil => exact ⟨p, qs, rfl⟩
        | cons q ps => exact ⟨q, ps ++ p :: qs, rfl⟩
      rw [hq] at hpages hstop
      apply hstop 0 q rfl hpages.head_marker
      simp only [List.length_append, List.length_cons] at hfull
      omega
    · rw [if_neg hfull, hwalk]
      simp only [List.length_append, List.length_cons, List.length_nil] at hfull hlen
      have hnone : (ps ++ p :: qs)[ps.length + 1 + qs.length]? = none :=
        List.getElem?_eq_none (by simp only [List.length_append, List.length_cons]; omega)
      rw [Nat.mod_eq_of_lt (by omega), appendLong, at?, hnone]
      rfl

/-- A row follows when there is a page for it. -/
theorem StringPages.ne_nil_iff {segs : List Segment} {pages : List Page}
    (h : StringPages segs pages)
    (hne : ∀ seg ∈ segs, seg.values ≠ []) :
    pages ≠ [] ↔ 0 < (segs.flatMap Segment.values).length := by
  cases h with
  | nil => simp
  | @cons seg segs qs ps hq _ =>
    have hvalues := List.length_pos_iff.mpr (hne seg (by simp))
    have hqs : qs ≠ [] := by
      cases seg with
      | short rows =>
        obtain ⟨p, rfl, -⟩ := hq
        exact nofun
      | long s =>
        obtain ⟨c, cs, p, ps, rfl, -⟩ := hq.2.split
        exact nofun
    rw [List.flatMap_cons, List.length_append]
    exact ⟨fun _ => by omega, fun _ hnil => hqs (List.append_eq_nil_iff.mp hnil).1⟩

/-- What is read for the reference to a long string of a column. -/
theorem WrittenStrings.derefLong {rows : List (Option (List UInt8))} {pages : List Page}
    (hw : WrittenStrings rows pages) (hpages : pages.length ≤ 65536) {i : Nat} {s : List UInt8}
    (hi : rows[i]? = some (some s)) (hs : 8192 - 7 < s.length) (tableId colId : Nat) :
    ∃ idx, (∀ junk, (buildColumnInserter tableId colId ⟨.varchar, pages⟩ .varchar junk).getValue i =
        .ok (Value.str tableId colId idx 4)) ∧
      ∀ inputs table, inputs[tableId % 65536]? = some table →
        table.columns[colId % 65536]? = some ⟨.varchar, pages⟩ →
          stringCall inputs (Value.str tableId colId idx 4) =
            if i + 1 < rows.length ∨ pages.length = 65536 then .ok (some s)
            else .error .outOfRange := by
  obtain ⟨segs, rfl, hsegs, hne⟩ := hw.segments
  obtain ⟨pre, post, ps, qs, rs, rfl, rfl, hpre, hlong, hpost, hlen⟩ := hsegs.at_long hi hs
  refine ⟨ps.length, fun junk => ?_, fun inputs table ht hc => ?_⟩
  · obtain ⟨slot, hvalue, hslot, -⟩ := hsegs.getValue tableId colId junk hi
    have hbefore : (columnSlots ps 0).length = i := by rw [(hpre.slots 0).length_eq, hlen]
    rw [columnSlots_append, columnSlots_append, hlong.columnSlots, Nat.zero_add,
      List.append_assoc, ← hbefore, List.getElem?_append_right le_rfl, Nat.sub_self] at hslot
    rw [hvalue, ← Option.some.inj hslot]
    rfl
  · have hnotNull : ¬ (Value.str tableId colId ps.length 4).isNull = true := by
      rw [Value.isNull_str (by decide) (by decide)]
      decide
    have hfollows : i + 1 < ((pre ++ .long s :: post).flatMap Segment.values).length ↔
        rs ≠ [] := by
      have hpost := hpost.ne_nil_iff fun seg hseg => hne seg (by simp [hseg])
      rw [hpost, List.flatMap_append, List.flatMap_cons, List.length_append, List.length_append,
        hlen, Segment.values, List.length_singleton]
      omega
    unfold stringCall
    rw [if_neg hnotNull, derefString_long ht hc hlong hsegs hpages hpost]
    simp only [hfollows]
    split <;> rfl

/-- A long string of a column is materialised, in every plan that has the column at the place that
its reference names, exactly when a row follows it or the column has all the 65536 pages that can
be numbered (and the place fits the fields of the reference). Otherwise the walk over its pages
leaves the column. -/
theorem derefLong_iff {rows : List (Option (List UInt8))} {pages : List Page}
    (hw : WrittenStrings rows pages) (hpages : pages.length ≤ 65536) {i : Nat} {s : List UInt8}
    (hi : rows[i]? = some (some s)) (hs : 8192 - 7 < s.length) (tableId colId : Nat) :
    (∀ inputs table, inputs[tableId]? = some table →
        table.columns[colId]? = some ⟨.varchar, pages⟩ → ∀ junk, ∃ v,
          (buildColumnInserter tableId colId ⟨.varchar, pages⟩ .varchar junk).getValue i = .ok v ∧
            stringCall inputs v = .ok (some s)) ↔
      (i + 1 < rows.length ∨ pages.length = 65536) ∧ tableId < 65536 ∧ colId < 65536 := by
  obtain ⟨idx, hvalue, hderef⟩ := hw.derefLong hpages hi hs tableId colId
  constructor
  · intro h
    obtain ⟨v, hv, hcall⟩ := h (inputsWith tableId colId ⟨.varchar, pages⟩)
      ⟨0, List.replicate colId ⟨.varchar, []⟩ ++ [⟨.varchar, pages⟩]⟩
      (by simp [inputsWith]) (by simp) fun _ _ => 0
    obtain rfl := Except.ok.inj ((hvalue _).symm.trans hv)
    by_cases hids : tableId < 65536 ∧ colId < 65536
    · refine ⟨?_, hids⟩
      have ht : (inputsWith tableId colId ⟨.varchar, pages⟩)[tableId % 65536]? =
          some ⟨0, List.replicate colId ⟨.varchar, []⟩ ++ [⟨.varchar, pages⟩]⟩ := by
        simp [inputsWith, Nat.mod_eq_of_lt hids.1]
      rw [hderef _ _ ht (by simp [Nat.mod_eq_of_lt hids.2])] at hcall
      by_contra hno
      rw [if_neg hno] at hcall
      cases hcall
    · exact absurd hcall (stringCall_lost (inputsWith_lost _ hids) (by decide) (by decide) _)
  · rintro ⟨hfollows, htid, hcid⟩ inputs table ht hc junk
    rw [← Nat.mod_eq_of_lt htid] at ht
    rw [← Nat.mod_eq_of_lt hcid] at hc
    exact ⟨_, hvalue junk, by rw [hderef inputs table ht hc, if_pos hfollows]⟩

/-- A string that is too long for an ordinary page, but takes only one. -/
def longString : List UInt8 := List.replicate 8186 97

theorem length_longString : longString.length = 8186 := List.length_replicate

/-- The column with the string and perhaps a NULL after it, on new pages of zeros. -/
def longPages (rest : List (Option (List UInt8))) : List Page :=
  StringInserter.write (fun _ => Buf.zero 8192) (some longString :: rest)

theorem insert_longString : ∃ page, StringInserter.put (fun _ => Buf.zero 8192) {}
    (some longString) = { column := { pages := [page], lastPageIdx := 1 } } := by
  have hone : ∃ page, StringInserter.saveLongString (fun _ => Buf.zero 8192) longString {} 0 true =
      { pages := [page], lastPageIdx := 1 } := by
    refine ⟨longPage (Buf.zero 8192) 0xffff (min (longString.length - 0) (8192 - 4))
      ((longString.drop 0).take (min (longString.length - 0) (8192 - 4))), ?_⟩
    unfold StringInserter.saveLongString
    rw [if_pos (by rw [length_longString]; decide),
      StringInserter.saveLongString, if_neg (by rw [length_longString]; decide)]
    rfl
  obtain ⟨page, hpage⟩ := hone
  refine ⟨page, ?_⟩
  show StringInserter.insert _ _ _ = _
  unfold StringInserter.insert
  rw [if_pos (by rw [length_longString]; decide)]
  show ({ column := StringInserter.saveLongString _ longString {} 0 true } : StringInserter) = _
  rw [hpage]

theorem length_longPages : (longPages []).length = 1 ∧ (longPages [none]).length = 2 := by
  obtain ⟨page, hpage⟩ := insert_longString
  constructor
  · unfold longPages
    rw [StringInserter.write, List.foldl_cons, hpage]
    rfl
  · unfold longPages
    rw [StringInserter.write, List.foldl_cons, hpage]
    simp [StringInserter.put, StringInserter.insertNull, StringInserter.finalize,
      StringInserter.savePage, ColumnPages.modifyPage, ColumnPages.getPage, ColumnPages.nextPage]

/-- With a NULL after it the string is materialised. -/
theorem derefLong_beforeNull : ∃ v,
    (buildColumnInserter 0 0 ⟨.varchar, longPages [none]⟩ .varchar fun _ _ => 0).getValue 0 =
        .ok v ∧
      stringCall [⟨2, [⟨.varchar, longPages [none]⟩]⟩] v = .ok (some longString) := by
  have hw : WrittenStrings [some longString, none] (longPages [none]) := ⟨_, .inl rfl⟩
  have hlen := length_longPages.2
  have hfirst : [some longString, none][0]? = some (some longString) := rfl
  have hall := (derefLong_iff hw (by rw [hlen]; decide) hfirst
    (by rw [length_longString]; decide) 0 0).mpr ⟨.inl (by decide), by decide, by decide⟩
  exact hall _ ⟨2, [⟨.varchar, longPages [none]⟩]⟩ rfl rfl fun _ _ => 0

/-- As the last value of a column it is read past the last page. -/
theorem not_derefLong_last : WrittenStrings [some longString] (longPages []) ∧
    (longPages []).length = 1 ∧ ∃ v,
      (buildColumnInserter 0 0 ⟨.varchar, longPages []⟩ .varchar fun _ _ => 0).getValue 0 = .ok v ∧
        stringCall [⟨1, [⟨.varchar, longPages []⟩]⟩] v = .error .outOfRange := by
  have hw : WrittenStrings [some longString] (longPages []) := ⟨_, .inl rfl⟩
  have hlen := length_longPages.1
  have hfirst : [some longString][0]? = some (some longString) := rfl
  obtain ⟨idx, hvalue, hderef⟩ := hw.derefLong (by rw [hlen]; decide) hfirst
    (by rw [length_longString]; decide) 0 0
  refine ⟨hw, hlen, _, hvalue _, ?_⟩
  rw [hderef [⟨1, [⟨.varchar, longPages []⟩]⟩] _ rfl rfl, hlen]
  rfl

end HashJoin
