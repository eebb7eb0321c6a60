import HashJoin.CSVParser

/-!
# Splitting the input of the CSV parser

Feeding a byte string in any chunks makes the same `on_field` calls, and succeeds or fails
alike, as feeding it whole (`feed_split`). One loop iteration either ignores the byte after,
or, at the end of a buffer, stops with a flag from which the head of the next `execute` takes
the same decision (`loop_resume`).

The two runs do not reach equal states. `execute` leaves `after_field_sep_` alone when it stops
at a CR, and the head of the next call does not reset it, so after a record ended that way the
flag may still say that a separator was just read. `Sim` relates such states: the stale flag is
read only by the record-end code of an empty record, which fails either way because that record
has no column and the first one had some.
-/

namespace HashJoin.CSVParser

/-! ## The record end -/

/-- The number of columns of the record that ends here. -/
def width (p : CSVParser) : Nat := if p.hasTrailingComma then p.colIdx else p.colIdx + 1

/-- The record-end code accepts. -/
def RecordOk (p : CSVParser) : Prop :=
  (p.hasTrailingComma = false ∨ p.afterFieldSep = true) ∧
    (p.afterFirstRow = false ∨ p.width = p.numCols)

instance (p : CSVParser) : Decidable p.RecordOk := by unfold RecordOk; infer_instance

/-- The state after an accepted record end. -/
def recordEnd (p : CSVParser) : CSVParser :=
  { p with
    fields := if p.hasTrailingComma then p.fields
      else p.fields ++ [⟨p.colIdx, p.rowIdx, p.currentField⟩]
    currentField := if p.hasTrailingComma then p.currentField else []
    afterFirstRow := true
    numCols := p.width
    colIdx := 0
    rowIdx := p.rowIdx + 1 }

theorem endRecord_ok {p : CSVParser} (h : p.RecordOk) : p.endRecord = (.ok, p.recordEnd) := by
  obtain ⟨h1, h2⟩ := h
  cases ht : p.hasTrailingComma <;> cases hf : p.afterFirstRow <;>
    simp_all [endRecord, recordEnd, width, nextRecord, onField]

theorem endRecord_bad {p : CSVParser} (h : ¬ p.RecordOk) :
    ∃ e, e ≠ .ok ∧ p.endRecord = (e, p) := by
  simp only [RecordOk, width, not_and_or, not_or] at h
  cases ht : p.hasTrailingComma <;> cases hf : p.afterFirstRow <;>
    cases hs : p.afterFieldSep <;> simp_all [endRecord]

/-! ## The invariant between calls -/

/-- What holds between any two calls of `execute`. -/
structure Inv (p : CSVParser) : Prop where
  quotedSeps : p.quoted = true → p.afterFieldSep = false ∧ p.afterRecordSep = false
  escapingQuoted : p.escaping = true → p.quoted = true
  newliningPlain : p.newlining = true → p.quoted = false
  numColsPos : p.hasTrailingComma = true → p.afterFirstRow = true → 0 < p.numCols
  fieldSepCol : p.hasTrailingComma = true → p.afterFieldSep = true →
    0 < p.colIdx ∨ p.afterFirstRow = true

/-- No decision is left over from the previous buffer. -/
def Idle (p : CSVParser) : Prop := p.escaping = false ∧ p.newlining = false

theorem Inv.numCols_recordEnd {p : CSVParser} (hi : Inv p) (h : p.RecordOk)
    (ht : p.hasTrailingComma = true) : 0 < p.recordEnd.numCols := by
  have hc : p.afterFieldSep = true := by simpa [ht] using h.1
  rcases hi.fieldSepCol ht hc with h0 | h0
  · simpa [recordEnd, width, ht] using h0
  · have hw : p.width = p.numCols := by simpa [h0] using h.2
    simpa [recordEnd, hw] using hi.numColsPos ht h0

theorem iter_next_inv {p q : CSVParser} {c : UInt8} {a : Option UInt8} {s : Bool}
    (h : p.iter c a = .next q s) (hi : Inv p) (hd : Idle p) : Inv q ∧ Idle q := by
  have hpos := hi.numCols_recordEnd
  obtain ⟨h1, h2, h3, h4, h5⟩ := hi
  by_cases hr : p.RecordOk
  · unfold iter at h
    simp only [endRecord_ok hr] at h
    refine ⟨⟨?_, ?_, ?_, ?_, ?_⟩, ?_⟩ <;> grind [push, onField, endIter, Idle, recordEnd]
  · obtain ⟨e, hne, he⟩ := endRecord_bad hr
    unfold iter at h
    simp only [he] at h
    refine ⟨⟨?_, ?_, ?_, ?_, ?_⟩, ?_⟩ <;> grind [push, onField, endIter, Idle]

/-- `execute` returns `Ok` early only at the last byte of the buffer. -/
theorem iter_stop_ok {p q : CSVParser} {c : UInt8} {a : Option UInt8}
    (h : p.iter c a = .stop .ok q) (hi : Inv p) : a = none ∧ Inv q := by
  obtain ⟨h1, h2, h3, h4, h5⟩ := hi
  unfold iter at h
  refine ⟨?_, ?_, ?_, ?_, ?_, ?_⟩ <;> grind

theorem loop_inv {l : List UInt8} : ∀ {p q : CSVParser}, p.loop l = (.ok, q) → Inv p → Idle p →
    Inv q := by
  induction l using List.twoStepInduction with
  | nil => intro p q h hi _; cases h; exact hi
  | singleton c =>
    intro p q h hi hd
    simp only [loop] at h
    split at h
    · next e q' hit => cases h; exact (iter_stop_ok hit hi).2
    · next q' hit => cases h; exact (iter_next_inv hit hi hd).1
    · next q' hit => cases h; exact (iter_next_inv hit hi hd).1
  | cons_cons c d l ih1 ih2 =>
    intro p q h hi hd
    rw [loop] at h
    split at h
    · next e q' hit => cases h; exact (iter_stop_ok hit hi).2
    · next q' hit => exact ih2 _ h (iter_next_inv hit hi hd).1 (iter_next_inv hit hi hd).2
    · next q' hit => exact ih1 h (iter_next_inv hit hi hd).1 (iter_next_inv hit hi hd).2

/-! ## States that differ in a stale flag -/

/-- The record-end code rejects whatever `after_field_sep_` says, or does not read it. -/
def Stale (p : CSVParser) : Prop :=
  p.quoted = false ∧ p.escaping = false ∧
    (p.hasTrailingComma = true → p.afterFirstRow = true ∧ p.colIdx = 0 ∧ 0 < p.numCols)

def withSep (p : CSVParser) (b : Bool) : CSVParser := { p with afterFieldSep := b }

/-- Equal, except for a stale `after_field_sep_`. -/
structure Sim (p q : CSVParser) : Prop where
  eq : q = p.withSep q.afterFieldSep
  stale : p.afterFieldSep = q.afterFieldSep ∨ Stale p

theorem Sim.refl (p : CSVParser) : Sim p p := ⟨rfl, .inl rfl⟩

theorem Sim.cases {p q : CSVParser} (h : Sim p q) :
    p = q ∨ Stale p ∧ q = p.withSep q.afterFieldSep := by
  obtain ⟨he, hs | hs⟩ := h
  · exact .inl (by rw [he, ← hs]; rfl)
  · exact .inr ⟨hs, he⟩

/-- The same `on_field` calls and the same success; related states after a success. -/
structure SameOutcome (r s : CSVError × CSVParser) : Prop where
  ok_iff : r.1 = .ok ↔ s.1 = .ok
  sim : r.1 = .ok → Sim r.2 s.2
  fields : r.2.fields = s.2.fields

theorem SameOutcome.refl (r : CSVError × CSVParser) : SameOutcome r r :=
  ⟨.rfl, fun _ => Sim.refl _, rfl⟩

theorem SameOutcome.of_sim {p q : CSVParser} (h : Sim p q) : SameOutcome (.ok, p) (.ok, q) :=
  ⟨.rfl, fun _ => h, by rw [h.eq]; rfl⟩

theorem SameOutcome.of_errors {e e' : CSVError} {p q : CSVParser} (he : e ≠ .ok) (he' : e' ≠ .ok)
    (h : p.fields = q.fields) : SameOutcome (e, p) (e', q) :=
  ⟨⟨fun h => absurd h he, fun h => absurd h he'⟩, fun h => absurd h he, h⟩

theorem SameOutcome.trans {r s t : CSVError × CSVParser} (h1 : SameOutcome r s)
    (h2 : SameOutcome s t) : SameOutcome r t := by
  refine ⟨h1.ok_iff.trans h2.ok_iff, fun h => ?_, h1.fields.trans h2.fields⟩
  have hs := h1.sim h
  have ht := h2.sim (h1.ok_iff.mp h)
  refine ⟨by rw [ht.eq, hs.eq]; rfl, ?_⟩
  rcases hs.cases with e | ⟨hst, -⟩
  · rw [e]; exact ht.stale
  · exact .inr hst

/-- A stale record end accepts whatever the flag says, or rejects whatever it says. -/
theorem Stale.recordOk_iff {p : CSVParser} (h : Stale p) (b : Bool) :
    (p.withSep b).RecordOk ↔ p.hasTrailingComma = false ∧ p.RecordOk := by
  obtain ⟨-, -, h3⟩ := h
  cases ht : p.hasTrailingComma with
  | false => simp [RecordOk, width, withSep, ht]
  | true =>
    obtain ⟨h4, h5, h6⟩ := h3 ht
    simp only [RecordOk, width, withSep, ht, h4, h5, reduceCtorEq, ↓reduceIte, false_or, false_and,
      iff_false, not_and]
    omega

theorem Stale.endRecord {p : CSVParser} (h : Stale p) (b : Bool) :
    (p.endRecord = (.ok, p.recordEnd) ∧ (p.withSep b).endRecord =
        (.ok, p.recordEnd.withSep b) ∧ p.hasTrailingComma = false) ∨
      ∃ e e', e ≠ .ok ∧ e' ≠ .ok ∧ p.endRecord = (e, p) ∧
        (p.withSep b).endRecord =
          (e', p.withSep b) := by
  have hb := h.recordOk_iff b
  have hp : p.RecordOk ↔ p.hasTrailingComma = false ∧ p.RecordOk := h.recordOk_iff p.afterFieldSep
  by_cases hr : p.RecordOk
  · have ht := (hp.mp hr).1
    exact .inl ⟨endRecord_ok hr, endRecord_ok (hb.mpr ⟨ht, hr⟩), ht⟩
  · obtain ⟨e, he, h1⟩ := endRecord_bad hr
    obtain ⟨e', he', h2⟩ := endRecord_bad (fun hr' => hr (hb.mp hr').2)
    exact .inr ⟨e, e', he, he', h1, h2⟩

/-- The record-end branch of the loop body. -/
theorem iter_newline {p : CSVParser} {c : UInt8} (hc : c ≠ p.comma) (hn : c = lf ∨ c = cr)
    (hq : p.quoted = false) (a : Option UInt8) :
    p.iter c a =
      if c = cr ∧ a = none then .stop .ok { p with newlining := true }
      else
        match p.endRecord with
        | (.ok, q) => .next (q.endIter false true) (c = cr ∧ a = some lf)
        | (e, q) => .stop e q := by
  unfold iter
  rw [if_neg (by rintro ⟨-, h1, h2, -⟩; exact hn.elim h1 h2), if_neg hc, if_pos hn, hq]
  rfl

/-- Every other branch of the loop body overwrites the flag without reading it. -/
theorem iter_withSep {p : CSVParser} {c : UInt8} (hn : ¬ (c ≠ p.comma ∧ (c = lf ∨ c = cr)))
    (hq : p.quoted = false) (b : Bool) (a : Option UInt8) :
    (p.withSep b).iter c a = p.iter c a := by
  have hs : (p.withSep b).quoted = false := hq
  unfold iter
  rw [hq, hs]
  by_cases h1 : c ≠ p.comma ∧ c ≠ lf ∧ c ≠ cr ∧ c ≠ quote ∧ c ≠ p.escape
  · rw [if_pos h1, if_pos (by exact h1)]; rfl
  by_cases h2 : c = p.comma
  · rw [if_neg h1, if_neg (by exact h1), if_pos h2, if_pos (by exact h2)]; rfl
  by_cases h3 : c = lf ∨ c = cr
  · exact absurd ⟨h2, h3⟩ hn
  · rw [if_neg h1, if_neg (by exact h1), if_neg h2, if_neg (by exact h2), if_neg h3, if_neg h3]
    rfl

theorem Stale.iter {p : CSVParser} (h : Stale p) (b : Bool) (c : UInt8) (a : Option UInt8) :
    (p.withSep b).iter c a = p.iter c a ∨
      (∃ e e', p.iter c a = .stop e p ∧ e ≠ .ok ∧
        (p.withSep b).iter c a = .stop e' (p.withSep b) ∧ e' ≠ .ok) ∨
      p.iter c a = .stop .ok { p with newlining := true } ∧
        (p.withSep b).iter c a = .stop .ok { p.withSep b with newlining := true } := by
  have hq := h.1
  by_cases hn : c ≠ p.comma ∧ (c = lf ∨ c = cr)
  · rw [iter_newline hn.1 hn.2 hq, iter_newline (p := p.withSep b) hn.1 hn.2 hq]
    by_cases hl : c = cr ∧ a = none
    · rw [if_pos hl, if_pos hl]
      exact .inr (.inr ⟨rfl, rfl⟩)
    · rw [if_neg hl, if_neg hl]
      rcases h.endRecord b with ⟨h1, h2, -⟩ | ⟨e, e', he, he', h1, h2⟩
      · rw [h1, h2]
        exact .inl rfl
      · rw [h1, h2]
        cases e <;> cases e' <;> simp_all
  · exact .inl (iter_withSep hn hq b a)

theorem loop_sim {p q : CSVParser} (h : Sim p q) (l : List UInt8) :
    SameOutcome (p.loop l) (q.loop l) := by
  rcases h.cases with rfl | ⟨hst, he⟩
  · exact .refl _
  rw [he]
  cases l with
  | nil => exact .of_sim ⟨rfl, .inr hst⟩
  | cons c l =>
    simp only [loop]
    rcases hst.iter q.afterFieldSep c l.head? with hit | ⟨e, e', h1, he, h2, he'⟩ | ⟨h1, h2⟩
    · rw [hit]; exact .refl _
    · rw [h1, h2]; exact .of_errors he he' rfl
    · rw [h1, h2]; exact .of_sim ⟨rfl, .inr hst⟩

/-! ## `execute` -/

@[simp] theorem resumeEscaping_idle {p : CSVParser} (h : p.escaping = false) (b : List UInt8) :
    p.resumeEscaping b = (p, 0) := by
  simp [resumeEscaping, h]

theorem execute_idle {p : CSVParser} (h : Idle p) (b : List UInt8) : p.execute b = p.loop b := by
  simp [execute, h.1, h.2]

theorem execute_newlining {p : CSVParser} (he : p.escaping = false) (hn : p.newlining = true)
    (b : List UInt8) :
    p.execute b =
      match p.endRecord with
      | (.ok, q) => loop { q with afterRecordSep := true, newlining := false }
          (b.drop (if b.head? = some lf then 1 else 0))
      | (e, q) => (e, q) := by
  rcases hend : p.endRecord with ⟨e, q⟩
  cases e <;> simp [execute, resumeEscaping_idle he, hn, hend]

/-- The bytes an escape resumption consumes, and what it leaves. -/
theorem resumeEscaping_inv {p : CSVParser} (hi : Inv p) (b : List UInt8) :
    Inv (p.resumeEscaping b).1 ∧ (p.resumeEscaping b).1.escaping = false ∧
      (p.resumeEscaping b).1.newlining = p.newlining ∧ (p.resumeEscaping b).2 ≤ 1 ∧
      (p.newlining = true → p.resumeEscaping b = (p, 0)) := by
  obtain ⟨h1, h2, h3, h4, h5⟩ := hi
  unfold resumeEscaping
  refine ⟨⟨?_, ?_, ?_, ?_, ?_⟩, ?_, ?_, ?_, ?_⟩ <;> grind [push]

theorem recordEnd_inv {p : CSVParser} (hi : Inv p) (hr : p.RecordOk) (hq : p.quoted = false)
    (he : p.escaping = false) :
    Inv { p.recordEnd with afterRecordSep := true, newlining := false } := by
  refine ⟨fun h => ?_, fun h => ?_, fun _ => hq, fun ht _ => hi.numCols_recordEnd hr ht,
    fun _ _ => .inr rfl⟩
  · simp [recordEnd, hq] at h
  · simp [recordEnd, he] at h

theorem execute_inv {p q : CSVParser} {b : List UInt8} (h : p.execute b = (.ok, q)) (hi : Inv p) :
    Inv q := by
  obtain ⟨hi', he, hn, -, -⟩ := resumeEscaping_inv hi b
  unfold execute at h
  generalize p.resumeEscaping b = r at h hi' he hn
  obtain ⟨r, i⟩ := r
  simp only at h hi' he hn
  by_cases hnl : r.newlining = true
  · rw [if_pos hnl] at h
    by_cases hr : r.RecordOk
    · rw [endRecord_ok hr] at h
      exact loop_inv h (recordEnd_inv hi' hr (hi'.newliningPlain hnl) he) ⟨he, rfl⟩
    · obtain ⟨e, hne, he'⟩ := endRecord_bad hr
      rw [he'] at h
      exact absurd (Prod.mk.inj h).1 (by simpa using hne)
  · rw [if_neg hnl] at h
    exact loop_inv h hi' ⟨he, by simpa using hnl⟩

theorem execute_sim {p q : CSVParser} (h : Sim p q) (b : List UInt8) :
    SameOutcome (p.execute b) (q.execute b) := by
  rcases h.cases with rfl | ⟨hst, hq⟩
  · exact .refl _
  have he := hst.2.1
  have he' : (p.withSep q.afterFieldSep).escaping = false := he
  rw [hq]
  by_cases hn : p.newlining = true
  · rw [execute_newlining he hn, execute_newlining he' hn]
    rcases hst.endRecord q.afterFieldSep with ⟨h1, h2, ht⟩ | ⟨e, e', hne, hne', h1, h2⟩
    · rw [h1, h2]
      refine loop_sim (q := withSep { p.recordEnd with afterRecordSep := true, newlining := false }
        q.afterFieldSep) ⟨rfl, .inr ⟨hst.1, he, fun h => ?_⟩⟩ _
      simp [recordEnd, ht] at h
    · rw [h1, h2]
      cases e <;> cases e' <;> first | contradiction | exact .of_errors (by simp) (by simp) rfl
  · have hi : Idle p := ⟨he, by simpa using hn⟩
    rw [execute_idle hi, execute_idle (p := p.withSep q.afterFieldSep) hi]
    exact loop_sim ⟨rfl, .inr hst⟩ _

/-! ## Appending buffers -/

theorem SameOutcome.andThen {r s : CSVError × CSVParser} (h : SameOutcome r s)
    {k : CSVParser → CSVError × CSVParser}
    (hk : r.1 = .ok → Sim r.2 s.2 → SameOutcome (k r.2) (k s.2)) :
    SameOutcome (andThen r k) (andThen s k) := by
  obtain ⟨e, p⟩ := r
  obtain ⟨e', q⟩ := s
  by_cases he : e = .ok
  · have he' : e' = .ok := h.ok_iff.mp he
    subst he he'
    exact hk rfl (h.sim rfl)
  · have he' : e' ≠ .ok := fun h' => he (h.ok_iff.mpr h')
    cases e <;> cases e' <;> first | contradiction | exact h

theorem SameOutcome.andThen_congr {r : CSVError × CSVParser}
    {k k' : CSVParser → CSVError × CSVParser}
    (hk : ∀ p, r = (.ok, p) → SameOutcome (k p) (k' p)) :
    SameOutcome (CSVParser.andThen r k) (CSVParser.andThen r k') := by
  obtain ⟨e, p⟩ := r
  cases e <;> first | exact hk p rfl | exact .refl _

/-- An iteration that does not stop at the last byte does not look at the byte after. -/
theorem iter_ahead {p q : CSVParser} {c : UInt8} {s : Bool} (h : p.iter c none = .next q s)
    (d : UInt8) : s = false ∧ p.iter c (some d) = .next q false := by
  unfold iter at h ⊢
  grind

/-- An error does not depend on the byte after. -/
theorem iter_error {p q : CSVParser} {c : UInt8} {e : CSVError} (h : p.iter c none = .stop e q)
    (he : e ≠ .ok) (a : Option UInt8) : p.iter c a = .stop e q := by
  unfold iter at h ⊢
  grind

/-- The three early returns. -/
theorem iter_stop_cases {p q : CSVParser} {c : UInt8} (h : p.iter c none = .stop .ok q) :
    (c ≠ p.comma ∧ c = cr ∧ p.quoted = false ∧ q = { p with newlining := true }) ∨
    (c ≠ p.comma ∧ c = quote ∧ p.escape = quote ∧ p.quoted = true ∧
      q = { p with escaping := true }) ∨
    (c ≠ p.comma ∧ c ≠ lf ∧ c ≠ cr ∧ c ≠ quote ∧ c = p.escape ∧ p.quoted = true ∧
      q = { p with escaping := true }) := by
  unfold iter at h
  split_ifs at h with h1 h2 h3 h4 h5 h6 h7 h8 h9 h10
  · exact .inl ⟨h2, h6.1, by simpa using h5, by cases h; rfl⟩
  · split at h
    · cases h
    · next hne _ => cases h; exact (hne rfl).elim
  · exact .inr (.inl ⟨h2, h7, h8, by simpa using h9, by cases h; rfl⟩)
  · have hl : c ≠ lf ∧ c ≠ cr := not_or.mp h4
    have he : c = p.escape := by
      by_contra he
      exact h1 ⟨h2, hl.1, hl.2, h7, he⟩
    exact .inr (.inr ⟨h2, hl.1, hl.2, h7, he, h10, by cases h; rfl⟩)

theorem iter_quote_ahead {p : CSVParser} {c : UInt8} (hc : c ≠ p.comma) (hq : c = quote)
    (he : p.escape = quote) (hqd : p.quoted = true) (d : UInt8) :
    p.iter c (some d) =
      if d = quote then .next ((p.push c).endIter false false) true
      else .next (endIter { p with quoted := false } false false) false := by
  unfold iter
  rw [if_neg (by rintro ⟨-, -, -, h, -⟩; exact h hq), if_neg hc,
    if_neg (by subst hq; decide), if_pos hq, if_pos he, hqd]
  rfl

theorem iter_escape_ahead {p : CSVParser} {c : UInt8} (hc : c ≠ p.comma) (hlf : c ≠ lf)
    (hcr : c ≠ cr) (hq : c ≠ quote) (he : c = p.escape) (hqd : p.quoted = true) (d : UInt8) :
    p.iter c (some d) =
      if d = quote ∨ d = p.escape then .next ((p.push d).endIter false false) true
      else .next ((p.push p.escape).endIter false false) false := by
  unfold iter
  rw [if_neg (by rintro ⟨-, -, -, -, h⟩; exact h he), if_neg hc,
    if_neg (by rintro (h | h); exacts [hlf h, hcr h]), if_neg hq, if_pos hqd]

/-- The head of `execute` on an escape left pending in a quoted field. -/
theorem execute_escaping {p : CSVParser} (hi : Inv p) (hd : Idle p) (hq : p.quoted = true)
    (d : UInt8) (ys : List UInt8) :
    execute { p with escaping := true } (d :: ys) =
      if p.escape = quote then
        if d = quote then loop ((p.push quote).endIter false false) ys
        else loop (endIter { p with quoted := false } false false) (d :: ys)
      else
        if d = quote ∨ d = p.escape then loop ((p.push d).endIter false false) ys
        else loop ((p.push p.escape).endIter false false) (d :: ys) := by
  obtain ⟨h1, h2⟩ := hi.quotedSeps hq
  obtain ⟨h3, h4⟩ := hd
  have hp : ∀ c, { push { p with escaping := true } c with escaping := false } =
      (p.push c).endIter false false := by
    intro c
    cases p
    simp_all [push, endIter]
  have hz : ({ p with quoted := false, escaping := false } : CSVParser) =
      endIter { p with quoted := false } false false := by
    cases p
    simp_all [endIter]
  unfold execute resumeEscaping
  simp only [↓reduceIte, List.headD_cons, hp, hz]
  split_ifs <;> first | rfl | simp_all [push, endIter]

/-- Stopping before the decision on `c` and resuming with the byte `d` in the next buffer takes
the decision the loop takes when it sees `d` ahead. -/
theorem loop_resume {p q : CSVParser} {c : UInt8} (hi : Inv p) (hd : Idle p)
    (h : p.iter c none = .stop .ok q) (d : UInt8) (ys : List UInt8) :
    SameOutcome (p.loop (c :: d :: ys)) (q.execute (d :: ys)) := by
  unfold loop
  rw [List.head?_cons]
  rcases iter_stop_cases h with ⟨hc, hcr, hq, rfl⟩ | ⟨hc, hcq, heq, hq, rfl⟩ |
    ⟨hc, hlf, hcr, hcq, hce, hq, rfl⟩
  · rw [iter_newline hc (.inr hcr) hq, if_neg (by simp),
      execute_newlining (p := { p with newlining := true }) hd.1 rfl]
    by_cases hr : p.RecordOk
    · rw [endRecord_ok hr, endRecord_ok (p := { p with newlining := true }) hr]
      have hs : Sim (p.recordEnd.endIter false true)
          { p.recordEnd with afterRecordSep := true, newlining := false } := by
        refine ⟨?_, .inr ⟨hq, hd.1, fun ht => ⟨rfl, rfl, hi.numCols_recordEnd hr ht⟩⟩⟩
        have hn : p.recordEnd.newlining = false := hd.2
        simp [withSep, endIter, hn]
      by_cases hl : d = lf
      · simp only [hl, hcr, and_self, decide_true, List.head?_cons, ↓reduceIte, List.drop_one]
        exact loop_sim hs ys
      · simp only [hl, hcr, Option.some.injEq, and_false, decide_false, List.head?_cons,
          ↓reduceIte, List.drop_zero]
        exact loop_sim hs (d :: ys)
    · obtain ⟨e, hne, he⟩ := endRecord_bad hr
      obtain ⟨e', hne', he'⟩ := endRecord_bad (p := { p with newlining := true }) hr
      rw [he, he']
      cases e <;> cases e' <;> first | contradiction | exact .of_errors (by simp) (by simp) rfl
  · rw [iter_quote_ahead hc hcq heq hq, execute_escaping hi hd hq, if_pos heq]
    by_cases hdq : d = quote
    · rw [if_pos hdq, if_pos hdq, hcq]
      exact .refl _
    · rw [if_neg hdq, if_neg hdq]
      exact .refl _
  · rw [iter_escape_ahead hc hlf hcr hcq hce hq, execute_escaping hi hd hq,
      if_neg (fun he => hcq (hce.trans he))]
    by_cases hdq : d = quote ∨ d = p.escape
    · rw [if_pos hdq, if_pos hdq]
      exact .refl _
    · rw [if_neg hdq, if_neg hdq]
      exact .refl _

theorem loop_append {ys : List UInt8} (hys : ys ≠ []) : ∀ (xs : List UInt8) {p : CSVParser},
    Inv p → Idle p →
    SameOutcome (p.loop (xs ++ ys)) (andThen (p.loop xs) fun q => q.execute ys) := by
  intro xs
  induction xs using List.twoStepInduction with
  | nil =>
    intro p _ hd
    simp only [List.nil_append, loop, andThen, execute_idle hd]
    exact .refl _
  | singleton c =>
    intro p hi hd
    obtain ⟨d, ys, rfl⟩ := List.exists_cons_of_ne_nil hys
    cases hit : p.iter c none with
    | stop e q =>
      have hl : p.loop [c] = (e, q) := by simp [loop, hit]
      rw [hl]
      by_cases he : e = .ok
      · subst he
        exact loop_resume hi hd hit d ys
      · rw [List.singleton_append, loop, iter_error hit he]
        cases e <;> first | contradiction | exact .refl _
    | next q s =>
      obtain ⟨rfl, hit'⟩ := iter_ahead hit d
      have hl : p.loop [c] = (.ok, q) := by simp [loop, hit]
      rw [hl, List.singleton_append, loop, List.head?_cons, hit']
      simp only [andThen, execute_idle (iter_next_inv hit hi hd).2]
      exact .refl _
  | cons_cons c d xs ih1 ih2 =>
    intro p hi hd
    rw [List.cons_append, List.cons_append, loop, loop, List.head?_cons, List.head?_cons]
    cases hit : p.iter c (some d) with
    | stop e q =>
      have he : e ≠ .ok := by
        rintro rfl
        exact absurd (iter_stop_ok hit hi).1 (by simp)
      cases e <;> first | contradiction | exact .refl _
    | next q s =>
      obtain ⟨hi', hd'⟩ := iter_next_inv hit hi hd
      cases s with
      | false => simpa using ih2 d hi' hd'
      | true => exact ih1 hi' hd'

theorem execute_append {p : CSVParser} (hi : Inv p) {xs ys : List UInt8} (hxs : xs ≠ [])
    (hys : ys ≠ []) :
    SameOutcome (p.execute (xs ++ ys)) (andThen (p.execute xs) fun q => q.execute ys) := by
  obtain ⟨x, xs, rfl⟩ := List.exists_cons_of_ne_nil hxs
  obtain ⟨hi', he, hn, hle, hnl⟩ := resumeEscaping_inv hi (x :: xs)
  have hres : p.resumeEscaping (x :: xs ++ ys) = p.resumeEscaping (x :: xs) := rfl
  unfold execute
  rw [hres]
  generalize p.resumeEscaping (x :: xs) = r at hi' he hn hle hnl
  obtain ⟨r, i⟩ := r
  simp only at hi' he hn hle hnl ⊢
  have hdrop : ∀ j, j ≤ 1 → (x :: xs ++ ys).drop j = (x :: xs).drop j ++ ys := by
    intro j hj
    exact List.drop_append_of_le_length (by simp; omega)
  by_cases hrn : r.newlining = true
  · obtain ⟨rfl, rfl⟩ := Prod.mk.inj (hnl (hn ▸ hrn))
    rw [if_pos hrn, if_pos hrn]
    by_cases hr : r.RecordOk
    · rw [endRecord_ok hr]
      have hj : (if (x :: xs ++ ys).head? = some lf then 0 + 1 else 0) ≤ 1 := by
        split_ifs <;> omega
      simp only [hdrop _ hj]
      exact loop_append hys _ (recordEnd_inv hi' hr (hi'.newliningPlain hrn) he) ⟨he, rfl⟩
    · obtain ⟨e, hne, he'⟩ := endRecord_bad hr
      rw [he']
      cases e <;> first | contradiction | exact .refl _
  · rw [if_neg hrn, if_neg hrn, hdrop i hle]
    exact loop_append hys _ hi' ⟨he, by simpa using hrn⟩

/-- Feeding the buffers one after another is feeding their concatenation. -/
theorem feed_flatten {b : List UInt8} {bs : List (List UInt8)} : ∀ {p : CSVParser}, Inv p →
    (∀ c ∈ b :: bs, c ≠ []) → SameOutcome (p.execute (b :: bs).flatten) (p.feed (b :: bs)) := by
  induction bs generalizing b with
  | nil =>
    intro p _ _
    unfold feed
    rw [List.flatten_singleton]
    refine ⟨?_, ?_, ?_⟩ <;> rcases p.execute b with ⟨e, q⟩ <;> cases e <;>
      simp [CSVParser.andThen, feed, Sim.refl]
  | cons c bs ih =>
    intro p hi hne
    have hb : b ≠ [] := hne b List.mem_cons_self
    have hcs : ∀ d ∈ c :: bs, d ≠ [] := fun d hd => hne d (List.mem_cons_of_mem b hd)
    have hfl : (c :: bs).flatten ≠ [] := by
      have := hcs c List.mem_cons_self
      simp [this]
    rw [List.flatten_cons, feed]
    exact (execute_append hi hb hfl).trans
      (SameOutcome.andThen_congr fun q hq => ih (execute_inv hq hi) hcs)

/-! ## `finish` -/

theorem finish_unquoted {p : CSVParser} (h : p.quoted = false) :
    p.finish = if p.newlining then p.execute []
      else if !p.afterRecordSep then p.execute [lf] else (.ok, p) := by
  unfold finish
  rw [h, if_neg Bool.false_ne_true]

theorem finish_sim {p q : CSVParser} (h : Sim p q) : SameOutcome p.finish q.finish := by
  rcases h.cases with rfl | ⟨hst, hq⟩
  · exact .refl _
  have hq' : q.quoted = false := by rw [hq]; exact hst.1
  have hn : q.newlining = p.newlining := by rw [hq]; rfl
  have hs : q.afterRecordSep = p.afterRecordSep := by rw [hq]; rfl
  rw [finish_unquoted hst.1, finish_unquoted hq', hn, hs]
  split_ifs
  · exact execute_sim h []
  · exact execute_sim h [lf]
  · exact .of_sim h

/-- What a caller sees of a run: the `on_field` calls, and whether it succeeded. -/
def outcome (r : CSVError × CSVParser) : List FieldCall × Bool := (r.2.fields, r.1 = .ok)

theorem SameOutcome.outcome {r s : CSVError × CSVParser} (h : SameOutcome r s) :
    CSVParser.outcome r = CSVParser.outcome s := by
  simp only [CSVParser.outcome, h.fields, h.ok_iff]

theorem inv_init (escape comma : UInt8) (trailing : Bool) :
    Inv { escape := escape, comma := comma, hasTrailingComma := trailing } := by
  constructor <;> simp

/-- Parsing does not depend on how the input is cut into buffers. -/
theorem feed_split (escape comma : UInt8) (trailing : Bool) (chunks : List (List UInt8))
    (hne : ∀ b ∈ chunks, b ≠ []) :
    let p : CSVParser := { escape := escape, comma := comma, hasTrailingComma := trailing }
    outcome (andThen (p.feed chunks) finish) =
      outcome (andThen (p.execute chunks.flatten) finish) := by
  intro p
  cases chunks with
  | nil => rfl
  | cons b bs =>
    exact ((feed_flatten (inv_init escape comma trailing) hne).andThen
      fun _ h => finish_sim h).outcome.symm

/-- `1,` CR, LF, `"x"` CR, cut after each CR. -/
theorem feed_split_cr :
    let p : CSVParser := { escape := backslash, comma := 44, hasTrailingComma := true }
    outcome (andThen (p.feed [[49, 44, 13], [10, 34, 120, 34, 44, 13]]) finish) =
      outcome (andThen (p.execute [49, 44, 13, 10, 34, 120, 34, 44, 13]) finish) :=
  feed_split backslash 44 true [[49, 44, 13], [10, 34, 120, 34, 44, 13]] (by decide)

end HashJoin.CSVParser
