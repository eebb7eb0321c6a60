import Mathlib.Data.List.ReduceOption
import HashJoin.Plan

/-!
# What a page holds

The rows that the bytes of a page stand for. A fixed-width page has the two counts, the non-NULL
values from `dataBegin` on and the row bitmap at its end. A string page has the end offsets of its
non-NULL strings after the counts, then their bytes. A string too long for a page takes pages of
its own, the first marked `0xffff` and the others `0xfffe`.
-/

namespace HashJoin

open Bytes

/-- A value that may be NULL, as a cell of a table. -/
def cellOf {α : Type} (mk : α → Data) : Option α → Data
  | none => .null
  | some v => mk v

/-! ## Fixed-width pages -/

structure FixedPage {T : Type} [Pod T] (dataBegin : Nat) (rows : List (Option T)) (p : Page) :
    Prop where
  numRows : p.u16 0 = rows.length
  numNonNull : p.u16 2 = rows.reduceOption.length
  bits : ∀ i (h : i < rows.length), getBitmap (Page.bitmap p rows.length) i = rows[i].isSome
  values : ∀ k (h : k < rows.reduceOption.length),
    p.read T (dataBegin + Pod.size T * k) = rows.reduceOption[k]
  fits : dataBegin + Pod.size T * rows.reduceOption.length + (rows.length + 7) / 8 ≤ 8192

/-- What reading a fixed-width page needs: the values may reach into the bitmap, but not beyond the
page. -/
structure FixedRead {T : Type} [Pod T] (dataBegin : Nat) (rows : List (Option T)) (p : Page) :
    Prop where
  numRows : p.u16 0 = rows.length
  bits : ∀ i (h : i < rows.length), getBitmap (Page.bitmap p rows.length) i = rows[i].isSome
  values : ∀ k (h : k < rows.reduceOption.length),
    p.read T (dataBegin + Pod.size T * k) = rows.reduceOption[k]
  inside : dataBegin + Pod.size T * rows.reduceOption.length ≤ 8192

theorem FixedPage.read {T : Type} [Pod T] {dataBegin : Nat} {rows : List (Option T)} {p : Page}
    (h : FixedPage dataBegin rows p) : FixedRead dataBegin rows p := by
  have := h.fits
  exact ⟨h.numRows, h.bits, h.values, by omega⟩

/-! ## String pages -/

structure StringPage (rows : List (Option (List UInt8))) (p : Page) : Prop where
  numRows : p.u16 0 = rows.length
  numNonNull : p.u16 2 = rows.reduceOption.length
  bits : ∀ i (h : i < rows.length), getBitmap (Page.bitmap p rows.length) i = rows[i].isSome
  offsets : ∀ k < rows.reduceOption.length,
    p.u16 (4 + 2 * k) = (rows.reduceOption.take (k + 1)).flatten.length
  bytes : p.slice (4 + 2 * rows.reduceOption.length) rows.reduceOption.flatten.length =
    rows.reduceOption.flatten
  fits : 4 + 2 * rows.reduceOption.length + rows.reduceOption.flatten.length +
    (rows.length + 7) / 8 ≤ 8192

/-- The row count of a string page stays below the markers. -/
theorem StringPage.numRows_lt {rows : List (Option (List UInt8))} {p : Page}
    (h : StringPage rows p) : p.u16 0 < 0xfffe := by
  have := h.fits
  rw [h.numRows]
  omega

/-- A page with a piece of a long string. -/
structure LongPage (marker : Nat) (chunk : List UInt8) (p : Page) : Prop where
  marker : p.u16 0 = marker
  numChars : p.u16 2 = chunk.length
  fits : 4 + chunk.length ≤ 8192
  bytes : p.slice 4 chunk.length = chunk

structure LongPages (s : List UInt8) (pages : List Page) : Prop where
  split : ∃ c cs p ps, pages = p :: ps ∧ s = c ++ cs.flatten ∧ LongPage 0xffff c p ∧
    List.Forall₂ (LongPage 0xfffe) cs ps

/-- A stretch of rows on pages of their own. -/
inductive Segment where
  | short (rows : List (Option (List UInt8)))
  | long (s : List UInt8)

def Segment.values : Segment → List (Option (List UInt8))
  | .short rs => rs
  | .long s => [some s]

def SegmentPages : Segment → List Page → Prop
  | .short rs, pages => ∃ p, pages = [p] ∧ StringPage rs p
  | .long s, pages => 8192 - 7 < s.length ∧ LongPages s pages

/-- The pages of a string column, segment by segment. -/
inductive StringPages : List Segment → List Page → Prop where
  | nil : StringPages [] []
  | cons {seg : Segment} {segs : List Segment} {qs ps : List Page} :
      SegmentPages seg qs → StringPages segs ps → StringPages (seg :: segs) (qs ++ ps)

theorem StringPages.append {segs segs' : List Segment} {ps ps' : List Page}
    (h : StringPages segs ps) (h' : StringPages segs' ps') :
    StringPages (segs ++ segs') (ps ++ ps') := by
  induction h with
  | nil => exact h'
  | cons hq _ ih =>
    rw [List.cons_append, List.append_assoc]
    exact .cons hq ih

theorem StringPages.concat {segs : List Segment} {seg : Segment} {ps qs : List Page}
    (h : StringPages segs ps) (hq : SegmentPages seg qs) :
    StringPages (segs ++ [seg]) (ps ++ qs) := by
  have := h.append (.cons hq .nil)
  rwa [List.append_nil] at this

theorem StringPages.concatShort {segs : List Segment} {rows : List (Option (List UInt8))}
    {ps : List Page} {p : Page} (h : StringPages segs ps) (hp : StringPage rows p) :
    StringPages (segs ++ [.short rows]) (ps ++ [p]) :=
  h.concat ⟨p, rfl, hp⟩

theorem StringPages.concatLong {segs : List Segment} {s : List UInt8} {ps qs : List Page}
    (h : StringPages segs ps) (hs : 8192 - 7 < s.length) (hq : LongPages s qs) :
    StringPages (segs ++ [.long s]) (ps ++ qs) :=
  h.concat ⟨hs, hq⟩

/-- One more segment with rows. -/
theorem nonempty_concat {segs : List Segment} {seg : Segment} (h : ∀ seg ∈ segs, seg.values ≠ [])
    (hseg : seg.values ≠ []) : ∀ seg' ∈ segs ++ [seg], seg'.values ≠ [] := by
  intro seg' hseg'
  rcases List.mem_append.mp hseg' with hseg' | hseg'
  · exact h seg' hseg'
  · rwa [List.mem_singleton.mp hseg']

theorem LongPages.marked {s : List UInt8} {pages : List Page} (h : LongPages s pages) {p : Page}
    (hp : p ∈ pages) : p.u16 0 = 0xffff ∨ p.u16 0 = 0xfffe := by
  obtain ⟨c, cs, q, qs, rfl, -, hq, hqs⟩ := h.split
  rcases List.mem_cons.mp hp with rfl | hp
  · exact .inl hq.marker
  · obtain ⟨i, hi, rfl⟩ := List.mem_iff_getElem.mp hp
    exact .inr (hqs.get (hqs.length_eq ▸ hi) hi).marker

/-- Every page of a string column is an ordinary page of its segment, or a marked one. -/
theorem StringPages.page_of_mem {segs : List Segment} {pages : List Page}
    (h : StringPages segs pages) {p : Page} (hp : p ∈ pages) :
    (∃ rows, .short rows ∈ segs ∧ StringPage rows p) ∨
      ∃ s, .long s ∈ segs ∧ (p.u16 0 = 0xffff ∨ p.u16 0 = 0xfffe) := by
  induction h with
  | nil => simp at hp
  | @cons seg segs qs ps hq _ ih =>
    rcases List.mem_append.mp hp with hp | hp
    · cases seg with
      | short rows =>
        obtain ⟨q, rfl, hq⟩ := hq
        exact .inl ⟨rows, by simp, List.mem_singleton.mp hp ▸ hq⟩
      | long s => exact .inr ⟨s, by simp, LongPages.marked hq.2 hp⟩
    · rcases ih hp with ⟨rows, hr, h⟩ | ⟨s, hs, h⟩
      · exact .inl ⟨rows, by simp [hr], h⟩
      · exact .inr ⟨s, by simp [hs], h⟩

/-- Without long strings every page is an ordinary one. -/
theorem StringPages.short_pages {segs : List Segment} {pages : List Page}
    (h : StringPages segs pages)
    (hshort : ∀ s, some s ∈ segs.flatMap Segment.values → s.length ≤ 8192 - 7) :
    ∃ chunks, segs.flatMap Segment.values = chunks.flatten ∧
      List.Forall₂ StringPage chunks pages := by
  induction h with
  | nil => exact ⟨[], rfl, .nil⟩
  | @cons seg segs qs ps hq _ ih =>
    rw [List.flatMap_cons] at hshort ⊢
    obtain ⟨chunks, hchunks, hps⟩ := ih fun s hs => hshort s (List.mem_append_right _ hs)
    cases seg with
    | short rows =>
      obtain ⟨p, rfl, hp⟩ := hq
      exact ⟨rows :: chunks, by rw [hchunks]; rfl, .cons hp hps⟩
    | long s =>
      have := hshort s (by simp [Segment.values])
      have := hq.1
      omega

/-- Without long strings there are at most as many pages as rows. -/
theorem StringPages.length_pages_le {segs : List Segment} {pages : List Page}
    (h : StringPages segs pages) (hne : ∀ seg ∈ segs, seg.values ≠ [])
    (hshort : ∀ s, some s ∈ segs.flatMap Segment.values → s.length ≤ 8192 - 7) :
    pages.length ≤ (segs.flatMap Segment.values).length := by
  induction h with
  | nil => exact le_rfl
  | @cons seg segs qs ps hq _ ih =>
    rw [List.forall_mem_cons] at hne
    rw [List.flatMap_cons] at hshort ⊢
    have hps := ih hne.2 fun s hs => hshort s (List.mem_append_right _ hs)
    cases seg with
    | short rows =>
      obtain ⟨p, rfl, -⟩ := hq
      have hrows : 0 < (Segment.values (.short rows)).length := List.length_pos_iff.mpr hne.1
      rw [List.length_append, List.length_append, List.length_singleton]
      omega
    | long s =>
      have := hshort s (by simp [Segment.values])
      have := hq.1
      omega

end HashJoin
