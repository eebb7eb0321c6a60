import HashJoin.Lib.Bytes

/-!
# Tables, pages and plans

The data types shared by the writers, the readers and the executor. `PAGE_SIZE` is 8192. A string
is its bytes, and an `FP64` value is its 64-bit pattern.
-/

namespace HashJoin

open Bytes

inductive DataType where
  | int32
  | int64
  | fp64
  | varchar
  deriving DecidableEq

/-- One value of a table. -/
inductive Data where
  | null
  | int32 (v : Int32)
  | int64 (v : Int64)
  | fp64 (bits : UInt64)
  | varchar (s : List UInt8)
  deriving DecidableEq

abbrev Page := Buf 8192

structure Column where
  type : DataType
  pages : List Page := []

structure ColumnarTable where
  numRows : Nat := 0
  columns : List Column := []

/-- A table by rows. -/
structure Table where
  data : List (List Data)
  types : List DataType

/-- Why reading or writing a table stops. -/
inductive Fault where
  | runtimeError (what : String)
  /-- Signed overflow, which is undefined behaviour. -/
  | overflow
  /-- A recursion that does not end. -/
  | stackOverflow
  /-- An access outside a page or a vector, which is undefined behaviour. -/
  | outOfRange
  deriving DecidableEq

@[simp] theorem ok_bind {ε α β : Type} (a : α) (f : α → Except ε β) :
    (Except.ok a >>= f) = f a := rfl

theorem mapM_ok {ε α β : Type} {f : α → Except ε β} {P : α → β → Prop} {l : List α}
    (h : ∀ a ∈ l, ∃ b, f a = .ok b ∧ P a b) :
    ∃ bs, l.mapM f = .ok bs ∧ List.Forall₂ P l bs := by
  induction l with
  | nil => exact ⟨[], rfl, .nil⟩
  | cons a l ih =>
    obtain ⟨b, hb, hp⟩ := h a (by simp)
    obtain ⟨bs, hbs, hps⟩ := ih fun a' ha => h a' (by simp [ha])
    exact ⟨b :: bs, by rw [List.mapM_cons, hb, ok_bind, hbs]; rfl, .cons hp hps⟩

theorem mapM_eq_map {ε α β : Type} {f : α → Except ε β} {g : α → β} {l : List α}
    (h : ∀ a ∈ l, f a = .ok (g a)) : l.mapM f = .ok (l.map g) := by
  induction l with
  | nil => rfl
  | cons a l ih =>
    rw [List.mapM_cons, h a (by simp), ok_bind, ih fun a' ha => h a' (by simp [ha])]
    rfl

theorem bind_eq_ok {ε α β : Type} {x : Except ε α} {f : α → Except ε β} {b : β} :
    (x >>= f) = .ok b ↔ ∃ a, x = .ok a ∧ f a = .ok b := by
  cases x with
  | ok a => simp
  | error e => exact ⟨nofun, fun ⟨_, h, _⟩ => nomatch h⟩

/-- A traversal succeeds with the results of its elements. -/
theorem mapM_eq_ok_iff {ε α β : Type} {f : α → Except ε β} {l : List α} {bs : List β} :
    l.mapM f = .ok bs ↔ List.Forall₂ (fun a b => f a = .ok b) l bs := by
  induction l generalizing bs with
  | nil =>
    rw [List.forall₂_nil_left_iff]
    exact ⟨fun h => (Except.ok.inj h).symm, fun h => h ▸ rfl⟩
  | cons a l ih =>
    rw [List.mapM_cons, List.forall₂_cons_left_iff, bind_eq_ok]
    constructor
    · rintro ⟨b, hb, h⟩
      obtain ⟨bs', hbs, heq⟩ := bind_eq_ok.mp h
      exact ⟨b, bs', hb, ih.mp hbs, (Except.ok.inj heq).symm⟩
    · rintro ⟨b, bs', hb, hbs, rfl⟩
      exact ⟨b, hb, bind_eq_ok.mpr ⟨bs', ih.mpr hbs, rfl⟩⟩

theorem exists_of_forall₂ {α β : Type} {R : α → β → Prop} {l : List α} {bs : List β}
    (h : List.Forall₂ R l bs) {a : α} (ha : a ∈ l) : ∃ b ∈ bs, R a b := by
  induction h with
  | nil => simp at ha
  | @cons a' b l bs hab _ ih =>
    rcases List.mem_cons.mp ha with rfl | ha
    · exact ⟨b, by simp, hab⟩
    · obtain ⟨b', hb', hab'⟩ := ih ha
      exact ⟨b', by simp [hb'], hab'⟩

/-- A loop each of whose steps adds some elements adds them all. -/
theorem foldlM_append {ε σ α ρ : Type} {f : σ → α → Except ε σ} {g : α → List ρ}
    {P : σ → List ρ → Prop} {l : List α}
    (h : ∀ a ∈ l, ∀ s rs, P s rs → ∃ s', f s a = .ok s' ∧ P s' (rs ++ g a)) {s : σ} {rs : List ρ}
    (hs : P s rs) : ∃ s', l.foldlM f s = .ok s' ∧ P s' (rs ++ l.flatMap g) := by
  induction l generalizing s rs with
  | nil => exact ⟨s, rfl, by simpa using hs⟩
  | cons a l ih =>
    obtain ⟨s₁, hs₁, hP₁⟩ := h a (by simp) s rs hs
    obtain ⟨s₂, hs₂, hP₂⟩ := ih (fun a' ha => h a' (by simp [ha])) hP₁
    refine ⟨s₂, by rw [List.foldlM_cons, hs₁, ok_bind, hs₂], ?_⟩
    rwa [List.append_assoc, ← List.flatMap_cons] at hP₂

/-- The value has the type, or is NULL. -/
def Data.HasType : Data → DataType → Prop
  | .null, _ => True
  | .int32 _, t => t = .int32
  | .int64 _, t => t = .int64
  | .fp64 _, t => t = .fp64
  | .varchar _, t => t = .varchar

/-- Every row has one value per column, of the type of the column. -/
def Table.WellTyped (t : Table) : Prop :=
  ∀ record ∈ t.data, List.Forall₂ Data.HasType record t.types

namespace Page

/-- The row bitmap of a page of `numRows` rows, at its end. -/
def bitmap (p : Page) (numRows k : Nat) : UInt8 := p.byte (8192 - (numRows + 7) / 8 + k)

/-- A value inside the page. -/
def readAt (T : Type) [Pod T] (p : Page) (off : Nat) : Except Fault T :=
  if off + Pod.size T ≤ 8192 then .ok (p.read T off) else .error .outOfRange

end Page

/-- `get_bitmap`. -/
def getBitmap (bitmap : Nat → UInt8) (idx : Nat) : Bool := bitAt bitmap idx

/-- The bitmap that a writer has just copied to the end of a page. -/
theorem getBitmap_memcpy (p : Page) {numRows i : Nat} {bm : List UInt8}
    (hlen : bm.length = (numRows + 7) / 8) (hfits : bm.length ≤ 8192) (hi : i < numRows) :
    getBitmap (Page.bitmap (p.memcpy (8192 - bm.length) bm) numRows) i = bitOf bm i := by
  have hk : i / 8 < bm.length := by omega
  apply bitAt_congr
  unfold Page.bitmap
  rw [hlen.symm, Buf.byte_memcpy_inside p (by omega) (by omega) (by omega),
    List.getD_eq_getElem?_getD, List.getElem?_eq_getElem hk, Option.getD_some]
  congr 1
  omega

end HashJoin
