import HashJoin.CSVEncode

/-!
# The records of a CSV file

A file in the dialect of `from_csv` read in one piece, without buffers, flags or column counts, and
what the parser makes of its records. The parser takes the number of columns from the first record.
At a record of another width, and at a quote that is never closed, it has made the calls for all
fields before the last.
-/

namespace HashJoin

/-! ## Reading a file -/

/-- The separator of `from_csv`. -/
def separator : UInt8 := 44

/-- One more record in front. -/
def consRecord (record : List (List UInt8)) (r : List (List (List UInt8)) × Bool) :
    List (List (List UInt8)) × Bool :=
  (record :: r.1, r.2)

/-- The records of the text to come and whether its quotes are closed, read from inside a record:
after `fields`, and the bytes `field` of the next one. An `opened` record has something in it, if
only an empty pair of quotes. -/
def readRecords (opened quoted : Bool) (fields : List (List UInt8)) (field : List UInt8) :
    List UInt8 → List (List (List UInt8)) × Bool
  | [] => (if opened then [fields ++ [field]] else [], !quoted)
  | c :: rest =>
    if quoted then
      if c = quote then readRecords true false fields field rest
      else if c = backslash ∧ (rest.head? = some quote ∨ rest.head? = some backslash) then
        match rest with
        | d :: rest' => readRecords true true fields (field ++ [d]) rest'
        | [] => ([fields ++ [field]], false)
      else readRecords true true fields (field ++ [c]) rest
    else if c = quote then readRecords true true fields field rest
    else if c = separator then readRecords true false (fields ++ [field]) [] rest
    else if c = lf then consRecord (fields ++ [field]) (readRecords false false [] [] rest)
    else if c = cr ∧ rest.head? = some lf then
      match rest with
      | _ :: rest' => consRecord (fields ++ [field]) (readRecords false false [] [] rest')
      | [] => ([fields ++ [field]], true)
    else if c = cr then consRecord (fields ++ [field]) (readRecords false false [] [] rest)
    else readRecords true false fields (field ++ [c]) rest

/-- The records of a file, the header among them, and whether its quotes are closed. -/
def recordsOf (content : List UInt8) : List (List (List UInt8)) × Bool :=
  readRecords false false [] [] content

/-- A CRLF and a quoted line break, and a record without its end. -/
example : recordsOf [97, 13, 10, 34, 10, 34, 44, 98] = ([[[97]], [[10], [98]]], true) := by decide

/-! ## What the parser makes of it -/

/-- The parser takes a record as a whole if it has `n` fields and, unless others come after it, its
quotes are closed. -/
def Complete (n : Nat) (closed : Bool) (record : List (List UInt8))
    (rest : List (List (List UInt8))) : Prop :=
  record.length = n ∧ (closed = true ∨ rest ≠ [])

instance (n : Nat) (closed : Bool) (record : List (List UInt8)) (rest : List (List (List UInt8))) :
    Decidable (Complete n closed record rest) := inferInstanceAs (Decidable (_ ∧ _))

/-- The calls for the records from row `row` on and whether the parser accepts them, where the first
record of the file has `n` fields. -/
def recordRun (n row : Nat) (closed : Bool) :
    List (List (List UInt8)) → List FieldCall × Bool
  | [] => ([], true)
  | record :: rest =>
    if Complete n closed record rest then
      let r := recordRun n (row + 1) closed rest
      (recordCalls row 0 record ++ r.1, r.2)
    else (recordCalls row 0 record.dropLast, false)

/-- What comes of the calls made `before` and the records read from row `row` on. -/
def expected (n row : Nat) (before : List FieldCall) (r : List (List (List UInt8)) × Bool) :
    List FieldCall × Bool :=
  (before ++ (recordRun n row r.2 r.1).1, (recordRun n row r.2 r.1).2)

theorem recordCalls_concat (row : Nat) (fields : List (List UInt8)) (field : List UInt8) :
    recordCalls row 0 (fields ++ [field]) =
      recordCalls row 0 fields ++ [⟨fields.length, row, field⟩] := by
  simp [recordCalls, List.zipIdx_append]

/-- More text, or an opened record, makes a record. -/
theorem readRecords_ne_nil {opened : Bool} {l : List UInt8} (h : opened = true ∨ l ≠ [])
    (quoted : Bool) (fields : List (List UInt8)) (field : List UInt8) :
    (readRecords opened quoted fields field l).1 ≠ [] := by
  fun_induction readRecords opened quoted fields field l <;> simp_all [consRecord]

/-- A record has at least one field. -/
theorem ne_nil_of_mem_readRecords (opened quoted : Bool) (fields : List (List UInt8))
    (field l : List UInt8) :
    ∀ record ∈ (readRecords opened quoted fields field l).1, record ≠ [] := by
  fun_induction readRecords opened quoted fields field l with
  | case1 opened =>
    cases opened <;> simp
  | case8 opened quoted fields field rest hq hc hs ih => simpa [consRecord] using ih
  | case9 opened quoted fields field c hq hc hs hlf d rest he ih => simpa [consRecord] using ih
  | case11 opened quoted fields field rest hq hc hs hlf he ih => simpa [consRecord] using ih
  | case4 | case10 => simp
  | _ => assumption

namespace CSVParser

variable {n row : Nat} {opened quoted : Bool} {fields : List (List UInt8)} {field : List UInt8}
  {before : List FieldCall} {p : CSVParser}

/-- Inside a record of which `fields` have been read, and `field` of the next one. -/
structure Reads (n row : Nat) (opened quoted : Bool) (fields : List (List UInt8))
    (field : List UInt8) (before : List FieldCall) (p : CSVParser) : Prop where
  state : At backslash separator n quoted row fields.length field
    (before ++ recordCalls row 0 fields) p
  first : p.afterFirstRow = decide (0 < row)
  sep : p.afterRecordSep = (!opened && decide (0 < row))
  unopened : opened = false → quoted = false ∧ fields = []

theorem reads_init (n : Nat) : Reads n 0 false false [] [] [] { escape := backslash } :=
  ⟨at_init backslash separator n, rfl, rfl, by simp⟩

theorem Reads.push (h : Reads n row opened quoted fields field before p) (c : UInt8) :
    Reads n row true quoted fields (field ++ [c]) before ((p.push c).endIter false false) :=
  ⟨h.state.push c, h.first, rfl, by simp⟩

theorem Reads.setQuoted (h : Reads n row opened quoted fields field before p) (b : Bool) :
    Reads n row true b fields field before (endIter { p with quoted := b } false false) :=
  ⟨h.state.setQuoted b, h.first, rfl, by simp⟩

theorem Reads.nextField (h : Reads n row opened quoted fields field before p) :
    Reads n row true quoted (fields ++ [field]) [] before
      (endIter { p.onField with colIdx := p.colIdx + 1 } true false) := by
  refine ⟨?_, h.first, rfl, by simp⟩
  rw [List.length_append, List.length_singleton, recordCalls_concat, ← List.append_assoc]
  exact h.state.nextField

theorem Reads.recordEnd (h : Reads n row opened false fields field before p)
    (hn : fields.length + 1 = n) {q : CSVParser} (hq : q = p.recordEnd.endIter false true ∨
      q = { p.recordEnd with afterRecordSep := true, newlining := false }) :
    Reads n (row + 1) false false [] [] (before ++ recordCalls row 0 (fields ++ [field])) q := by
  refine ⟨?_, ?_, ?_, by simp⟩
  · have hat := h.state.recordEnd hn hq
    rw [List.append_assoc, ← recordCalls_concat] at hat
    simpa [recordCalls] using hat
  · rcases hq with rfl | rfl <;> simp [CSVParser.recordEnd, endIter]
  · rcases hq with rfl | rfl <;> simp [endIter]

/-- A record is accepted if it has the width of the first one. -/
theorem Reads.recordOk_iff (h : Reads n row opened quoted fields field before p)
    (hn : row = 0 → n = fields.length + 1) : p.RecordOk ↔ fields.length + 1 = n := by
  refine ⟨fun hok => ?_, fun hw => h.state.recordOk hw⟩
  by_cases hrow : row = 0
  · exact (hn hrow).symm
  · have hfirst : p.afterFirstRow = true := by
      rw [h.first, decide_eq_true (Nat.pos_of_ne_zero hrow)]
    have hw := hok.2.resolve_left (by simp [hfirst])
    rwa [width, h.state.trailing, h.state.col, h.state.numCols hfirst] at hw

theorem andThen_error {e : CSVError} (he : e ≠ .ok) (p : CSVParser)
    (k : CSVParser → CSVError × CSVParser) : andThen (e, p) k = (e, p) := by
  cases e <;> first | contradiction | rfl

/-! ### The end of a record -/

theorem loop_stop {c : UInt8} {rest : List UInt8} {e : CSVError} {q : CSVParser}
    (h : p.iter c rest.head? = .stop e q) : p.loop (c :: rest) = (e, q) := by
  unfold loop
  rw [h]

theorem outcome_error {e : CSVError} (he : e ≠ .ok) (p : CSVParser) :
    outcome (andThen (e, p) finish) = (p.fields, false) := by
  rw [andThen_error he, outcome, decide_eq_false he]

theorem outcome_unclosed {p : CSVParser} (h : p.quoted = true) :
    outcome (andThen (.ok, p) finish) = (p.fields, false) := by
  have hfinish : p.finish = (.quoteNotClosed, p) := by rw [finish, h, if_pos rfl]
  show outcome p.finish = _
  rw [hfinish]
  rfl

theorem expected_unclosed (n row : Nat) (before : List FieldCall) (fields : List (List UInt8))
    (field : List UInt8) : expected n row before ([fields ++ [field]], false) =
      (before ++ recordCalls row 0 fields, false) := by
  simp [expected, recordRun, Complete]

/-- A record with others or the end of the file after it. -/
theorem expected_cons (n row : Nat) (before : List FieldCall) (fields : List (List UInt8))
    (field : List UInt8) {r : List (List (List UInt8)) × Bool} (hr : r.2 = true ∨ r.1 ≠ []) :
    expected n row before (consRecord (fields ++ [field]) r) =
      if fields.length + 1 = n then
        expected n (row + 1) (before ++ recordCalls row 0 (fields ++ [field])) r
      else (before ++ recordCalls row 0 fields, false) := by
  by_cases hn : fields.length + 1 = n
  · have hcomplete : Complete n r.2 (fields ++ [field]) r.1 := ⟨by simpa using hn, hr⟩
    rw [if_pos hn]
    simp [expected, consRecord, recordRun, hcomplete, List.append_assoc]
  · have hcomplete : ¬ Complete n r.2 (fields ++ [field]) r.1 := fun h => hn (by simpa using h.1)
    rw [if_neg hn]
    simp [expected, consRecord, recordRun, hcomplete]

theorem readRecords_closed (l : List UInt8) :
    (readRecords false false [] [] l).2 = true ∨ (readRecords false false [] [] l).1 ≠ [] := by
  by_cases hl : l = []
  · rw [hl]
    exact .inl rfl
  · exact .inr (readRecords_ne_nil (.inr hl) _ _ _)

section LineEnd

variable (h : Reads n row opened false fields field before p)
  (hn : row = 0 → n = fields.length + 1)
include h hn

/-- A line break whose bytes are all at hand. -/
theorem Reads.lineBreak {c : UInt8} (hc : c = lf ∨ c = cr) (rest : List UInt8)
    (hrest : ¬ (c = cr ∧ rest.head? = none)) :
    fields.length + 1 = n ∧ p.iter c rest.head? =
        .next (p.recordEnd.endIter false true) (c = cr ∧ rest.head? = some lf) ∨
      fields.length + 1 ≠ n ∧ ∃ e, e ≠ .ok ∧ p.iter c rest.head? = .stop e p := by
  have hcomma : c ≠ p.comma := by
    rw [h.state.comma]
    rcases hc with rfl | rfl <;> decide
  rw [iter_newline hcomma hc h.state.quoted, if_neg hrest]
  by_cases hok : p.RecordOk
  · left
    rw [endRecord_ok hok]
    exact ⟨(h.recordOk_iff hn).mp hok, rfl⟩
  · right
    obtain ⟨e, he, hend⟩ := endRecord_bad hok
    rw [hend]
    refine ⟨fun hw => hok ((h.recordOk_iff hn).mpr hw), e, he, ?_⟩
    cases e <;> first | contradiction | rfl

/-- The bytes of a line break, and the text after them. -/
theorem Reads.loop_lineBreak {text : List UInt8} (rest : List UInt8) (htext : text = lf :: rest ∨
      text = cr :: lf :: rest ∨ text = cr :: rest ∧ rest ≠ [] ∧ rest.head? ≠ some lf) :
    fields.length + 1 = n ∧ p.loop text = (p.recordEnd.endIter false true).loop rest ∨
      fields.length + 1 ≠ n ∧ ∃ e, e ≠ .ok ∧ p.loop text = (e, p) := by
  rcases htext with rfl | rfl | ⟨rfl, hne, hhead⟩
  · refine (h.lineBreak hn (.inl rfl) rest (by simp [lf, cr])).imp ?_ ?_
    · exact And.imp_right fun hiter => loop_next (hiter.trans (by simp [lf, cr]))
    · rintro ⟨hw, e, he, hiter⟩
      exact ⟨hw, e, he, loop_stop hiter⟩
  · refine (h.lineBreak hn (.inr rfl) (lf :: rest) (by simp)).imp ?_ ?_
    · exact And.imp_right fun hiter => loop_skip (hiter.trans (by simp))
    · rintro ⟨hw, e, he, hiter⟩
      exact ⟨hw, e, he, loop_stop hiter⟩
  · refine (h.lineBreak hn (.inr rfl) rest (by simpa using hne)).imp ?_ ?_
    · exact And.imp_right fun hiter => loop_next (hiter.trans (by simp [hhead]))
    · rintro ⟨hw, e, he, hiter⟩
      exact ⟨hw, e, he, loop_stop hiter⟩

/-- From a line break on, when the text after it is read as expected. -/
theorem Reads.outcome_lineBreak {text rest : List UInt8} (htext : text = lf :: rest ∨
      text = cr :: lf :: rest ∨ text = cr :: rest ∧ rest ≠ [] ∧ rest.head? ≠ some lf)
    (ih : ∀ q : CSVParser, Reads n (row + 1) false false [] []
        (before ++ recordCalls row 0 (fields ++ [field])) q →
      outcome (andThen (q.loop rest) finish) = expected n (row + 1)
        (before ++ recordCalls row 0 (fields ++ [field])) (readRecords false false [] [] rest)) :
    outcome (andThen (p.loop text) finish) = expected n row before
      (consRecord (fields ++ [field]) (readRecords false false [] [] rest)) := by
  rw [expected_cons n row before fields field (readRecords_closed rest)]
  rcases h.loop_lineBreak hn rest htext with ⟨hw, hloop⟩ | ⟨hw, e, he, hloop⟩
  · rw [if_pos hw, hloop]
    exact ih _ (h.recordEnd hw (.inl rfl))
  · rw [if_neg hw, hloop, outcome_error he, h.state.done]

/-- A record that ends with the text. -/
theorem Reads.outcome_end {r : CSVError × CSVParser}
    (hok : p.RecordOk → outcome r = (p.recordEnd.fields, true))
    (hbad : ¬ p.RecordOk → outcome r = (p.fields, false)) :
    outcome r = expected n row before ([fields ++ [field]], true) := by
  have hcons : (([fields ++ [field]], true) : List (List (List UInt8)) × Bool) =
      consRecord (fields ++ [field]) ([], true) := rfl
  rw [hcons, expected_cons n row before fields field (.inl rfl)]
  by_cases hw : fields.length + 1 = n
  · have hdone : p.recordEnd.fields = _ := (h.recordEnd hw (.inr rfl)).state.done
    rw [if_pos hw, hok ((h.recordOk_iff hn).mpr hw), hdone]
    simp [expected, recordRun, recordCalls]
  · rw [if_neg hw, hbad fun h' => hw ((h.recordOk_iff hn).mp h'), h.state.done]

/-- A record without its end. -/
theorem Reads.outcome_finish (hsep : p.afterRecordSep = false) :
    outcome p.finish = expected n row before ([fields ++ [field]], true) := by
  rw [finish_unquoted h.state.quoted, h.state.idle.2, if_neg Bool.false_ne_true, hsep,
    if_pos (by decide), execute_idle h.state.idle]
  refine h.outcome_end hn (fun hok => ?_) fun hbad => ?_
  · rcases h.loop_lineBreak hn [] (.inl rfl) with ⟨-, hloop⟩ | ⟨hw, -⟩
    · rw [hloop]
      rfl
    · exact absurd ((h.recordOk_iff hn).mp hok) hw
  · rcases h.loop_lineBreak hn [] (.inl rfl) with ⟨hw, -⟩ | ⟨-, e, he, hloop⟩
    · exact absurd ((h.recordOk_iff hn).mpr hw) hbad
    · rw [hloop, outcome, decide_eq_false he]

/-- A CR at the end of the text, where an LF could follow. -/
theorem Reads.outcome_cr :
    outcome (andThen (p.loop [cr]) finish) =
      expected n row before ([fields ++ [field]], true) := by
  have hcomma : cr ≠ p.comma := by
    rw [h.state.comma]
    decide
  have hiter : p.iter cr none = .stop .ok { p with newlining := true } := by
    rw [iter_newline hcomma (.inr rfl) h.state.quoted, if_pos ⟨rfl, rfl⟩]
  have hquoted : ({ p with newlining := true } : CSVParser).quoted = false := h.state.quoted
  have hescaping : ({ p with newlining := true } : CSVParser).escaping = false := h.state.idle.1
  rw [loop_stop hiter]
  show outcome (finish { p with newlining := true }) = _
  rw [finish_unquoted hquoted, if_pos rfl, execute_newlining hescaping rfl]
  refine h.outcome_end hn (fun hok => ?_) fun hbad => ?_
  · rw [endRecord_ok (p := { p with newlining := true }) hok]
    rfl
  · obtain ⟨e, he, hend⟩ := CSVParser.endRecord_bad (p := { p with newlining := true }) hbad
    rw [hend]
    cases e <;> first | contradiction | rfl

end LineEnd

/-- A byte in quotes that stands for itself. A backslash at the end of the text leaves the quotes
open. -/
theorem Reads.iter_quoted (h : Reads n row opened true fields field before p) {c : UInt8}
    (hc : c ≠ quote) {rest : List UInt8}
    (he : ¬ (c = backslash ∧ (rest.head? = some quote ∨ rest.head? = some backslash))) :
    p.iter c rest.head? = .next ((p.push c).endIter false false) false ∨
      rest = [] ∧ p.iter c rest.head? = .stop .ok { p with escaping := true } := by
  by_cases hb : c = backslash
  · have hcomma : c ≠ p.comma := by
      rw [hb, h.state.comma]
      decide
    have hescape : c = p.escape := by rw [hb, h.state.escape]
    have hplain : c ≠ lf ∧ c ≠ cr := by
      rw [hb]
      decide
    cases rest with
    | nil =>
      right
      unfold iter
      rw [if_neg (fun h' => h'.2.2.2.2 hescape), if_neg hcomma,
        if_neg (not_or.mpr ⟨hplain.1, hplain.2⟩), if_neg hc, h.state.quoted]
      exact ⟨rfl, rfl⟩
    | cons d rest =>
      left
      have hd : ¬ (d = quote ∨ d = p.escape) := by
        rw [← hescape, hb]
        simpa [hb] using he
      rw [List.head?_cons, iter_escape_ahead hcomma hplain.1 hplain.2 hc hescape h.state.quoted,
        if_neg hd, ← hescape]
  · exact .inl (CSVParser.iter_quoted h.state.quoted hc (by rwa [h.state.escape]) rest.head?)

/-- The end of the text. -/
theorem Reads.outcome_nil (h : Reads n row opened quoted fields field before p)
    (hsome : opened = true ∨ 0 < row) (hn : opened = true → row = 0 → n = fields.length + 1) :
    outcome p.finish =
      expected n row before (if opened then [fields ++ [field]] else [], !quoted) := by
  cases opened with
  | false =>
    obtain ⟨rfl, rfl⟩ := h.unopened rfl
    have hrow : 0 < row := hsome.resolve_left (by simp)
    have hfinish := finish_idle h.state (by rw [h.sep, decide_eq_true hrow]; rfl)
    rw [hfinish, outcome, h.state.done]
    rfl
  | true =>
    cases quoted with
    | true =>
      rw [if_pos rfl, Bool.not_true, expected_unclosed, ← h.state.done]
      exact outcome_unclosed h.state.quoted
    | false => exact h.outcome_finish (hn rfl) (by rw [h.sep]; rfl)

theorem outcome_loop (l : List UInt8) (h : Reads n row opened quoted fields field before p)
    (hsome : opened = true ∨ 0 < row ∨ l ≠ [])
    (hn : row = 0 → n = ((readRecords opened quoted fields field l).1.headD []).length) :
    outcome (andThen (p.loop l) finish) =
      expected n row before (readRecords opened quoted fields field l) := by
  fun_induction readRecords opened quoted fields field l generalizing p before row with
  | case1 opened quoted fields field =>
    apply h.outcome_nil (by simpa using hsome)
    intro hopened hrow
    simpa [hopened] using hn hrow
  | case2 opened fields field rest ih =>
    have hiter := iter_close h.state.quoted (by rw [h.state.escape]; decide)
      (by rw [h.state.comma]; decide) rest.head?
    rw [loop_next hiter]
    exact ih (h.setQuoted false) (.inl rfl) hn
  | case3 opened fields field c hc d rest he ih =>
    obtain ⟨rfl, hd⟩ := he
    have hiter := iter_escape h.state.quoted h.state.escape (by rw [h.state.comma]; decide)
      (d := d) (by simpa using hd)
    rw [loop_skip hiter]
    exact ih (h.push d) (.inl rfl) hn
  | case4 opened fields field c hc he => simp at he
  | case5 opened fields field c rest hc he ih =>
    rcases h.iter_quoted hc he with hiter | ⟨rfl, hiter⟩
    · rw [loop_next hiter]
      exact ih (h.push c) (.inl rfl) hn
    · rw [loop_stop hiter]
      refine (outcome_unclosed (p := { p with escaping := true }) h.state.quoted).trans ?_
      show (p.fields, false) = expected n row before ([fields ++ [field ++ [c]]], false)
      rw [expected_unclosed, h.state.done]
  | case6 opened quoted fields field rest hq ih =>
    obtain rfl : quoted = false := by simpa using hq
    have hiter := iter_open h.state.quoted (by rw [h.state.comma]; decide) rest.head?
    rw [loop_next hiter]
    exact ih (h.setQuoted true) (.inl rfl) hn
  | case7 opened quoted fields field rest hq hc ih =>
    obtain rfl : quoted = false := by simpa using hq
    have hiter := iter_comma h.state.quoted rest.head?
    rw [h.state.comma] at hiter
    rw [loop_next hiter]
    exact ih h.nextField (.inl rfl) hn
  | case8 opened quoted fields field rest hq hc hs ih =>
    obtain rfl : quoted = false := by simpa using hq
    apply h.outcome_lineBreak (by simpa [consRecord] using hn) (.inl rfl)
    intro q hq
    exact ih hq (.inr (.inl (Nat.succ_pos row))) (by simp)
  | case9 opened quoted fields field c hq hc hs hlf d rest he ih =>
    obtain rfl : quoted = false := by simpa using hq
    obtain ⟨rfl, hd⟩ := he
    obtain rfl : d = lf := by simpa using hd
    apply h.outcome_lineBreak (by simpa [consRecord] using hn) (.inr (.inl rfl))
    intro q hq
    exact ih hq (.inr (.inl (Nat.succ_pos row))) (by simp)
  | case10 opened quoted fields field c hq hc hs hlf he => simp at he
  | case11 opened quoted fields field rest hq hc hs hlf he ih =>
    obtain rfl : quoted = false := by simpa using hq
    by_cases hrest : rest = []
    · rw [hrest] at hn ⊢
      exact h.outcome_cr (by simpa [consRecord] using hn)
    · refine h.outcome_lineBreak (by simpa [consRecord] using hn)
        (.inr (.inr ⟨rfl, hrest, by simpa using he⟩)) fun q hq => ?_
      exact ih hq (.inr (.inl (Nat.succ_pos row))) (by simp)
  | case12 opened quoted fields field c rest hq hc hs hlf he hcr ih =>
    obtain rfl : quoted = false := by simpa using hq
    have hiter := iter_bare h.state.quoted (by rwa [h.state.comma]) hlf hcr hc rest.head?
    rw [loop_next hiter]
    exact ih (h.push c) (.inl rfl) hn

/-! ### The whole file -/

/-- The calls for a file, cut into any buffers, and whether the parser accepts it. -/
theorem outcome_recordsOf {buffers : List (List UInt8)} (hne : ∀ b ∈ buffers, b ≠ []) :
    outcome (andThen (feed { escape := backslash } buffers) finish) =
      if buffers = [] then ([⟨0, 0, []⟩], true)
      else
        let r := recordsOf buffers.flatten
        recordRun (r.1.headD []).length 0 r.2 r.1 := by
  by_cases hnil : buffers = []
  · rw [if_pos hnil, hnil]
    decide
  · have hflat : buffers.flatten ≠ [] := by
      obtain ⟨b, bs, rfl⟩ := List.exists_cons_of_ne_nil hnil
      have hb := hne b (by simp)
      simp [hb]
    have hsplit : outcome (andThen (feed { escape := backslash } buffers) finish) =
        outcome (andThen (execute { escape := backslash } buffers.flatten) finish) :=
      feed_split backslash separator false buffers hne
    have hrun := outcome_loop buffers.flatten
      (reads_init ((recordsOf buffers.flatten).1.headD []).length) (.inr (.inr hflat))
      fun _ => rfl
    rw [if_neg hnil, hsplit, execute_idle ⟨rfl, rfl⟩]
    exact hrun

end CSVParser

end HashJoin
