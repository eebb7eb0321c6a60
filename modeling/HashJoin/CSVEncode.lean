import HashJoin.CSVSplit

/-!
# Parsing encoded records

What `execute` and `finish` do on the text of a list of records: each field is read back with its
row and column. In the dialect of `from_csv` a quoted field has a backslash before each quote and
backslash; in the default dialect each quote in it is doubled, and the byte after a quote decides
whether the field ends there.
-/

namespace HashJoin

/-- How a record ends. -/
inductive Terminator where
  | lf
  | crlf
  | cr
  deriving DecidableEq

def Terminator.bytes : Terminator → List UInt8
  | .lf => [HashJoin.lf]
  | .crlf => [HashJoin.cr, HashJoin.lf]
  | .cr => [HashJoin.cr]

/-- The calls of `on_field` for the fields of a record, from column `col` on. -/
def recordCalls (row col : Nat) (values : List (List UInt8)) : List FieldCall :=
  (values.zipIdx col).map fun x => ⟨x.2, row, x.1⟩

/-- The calls of `on_field` for records, from row `row` on. -/
def recordsCalls (row : Nat) (records : List (List (List UInt8))) : List FieldCall :=
  (records.zipIdx row).flatMap fun x => recordCalls x.2 0 x.1

namespace CSVParser

variable {escape comma : UInt8} {n row col : Nat} {quoted : Bool} {cur : List UInt8}
  {done : List FieldCall} {p : CSVParser}

/-! ## The loop inside a field -/

/-- The loop is inside field `col` of record `row`, of which it has read `cur`, and `done` are the
calls so far. All records have `n` fields. -/
structure At (escape comma : UInt8) (n : Nat) (quoted : Bool) (row col : Nat) (cur : List UInt8)
    (done : List FieldCall) (p : CSVParser) : Prop where
  escape : p.escape = escape
  comma : p.comma = comma
  trailing : p.hasTrailingComma = false
  quoted : p.quoted = quoted
  row : p.rowIdx = row
  col : p.colIdx = col
  cur : p.currentField = cur
  done : p.fields = done
  idle : Idle p
  numCols : p.afterFirstRow = true → p.numCols = n

theorem at_init (escape comma : UInt8) (n : Nat) :
    At escape comma n false 0 0 [] [] { escape := escape, comma := comma } :=
  ⟨rfl, rfl, rfl, rfl, rfl, rfl, rfl, rfl, ⟨rfl, rfl⟩, nofun⟩

theorem At.push (h : At escape comma n quoted row col cur done p) (c : UInt8) :
    At escape comma n quoted row col (cur ++ [c]) done ((p.push c).endIter false false) := by
  refine ⟨h.escape, h.comma, h.trailing, h.quoted, h.row, h.col, ?_, h.done, h.idle, h.numCols⟩
  show p.currentField ++ [c] = cur ++ [c]
  rw [h.cur]

theorem At.setQuoted (h : At escape comma n quoted row col cur done p) (b : Bool) :
    At escape comma n b row col cur done (endIter { p with quoted := b } false false) :=
  ⟨h.escape, h.comma, h.trailing, rfl, h.row, h.col, h.cur, h.done, h.idle, h.numCols⟩

theorem At.nextField (h : At escape comma n quoted row col cur done p) :
    At escape comma n quoted row (col + 1) [] (done ++ [⟨col, row, cur⟩])
      (endIter { p.onField with colIdx := p.colIdx + 1 } true false) := by
  refine ⟨h.escape, h.comma, h.trailing, h.quoted, h.row, ?_, rfl, ?_, h.idle, h.numCols⟩
  · show p.colIdx + 1 = col + 1
    rw [h.col]
  · show p.fields ++ [⟨p.colIdx, p.rowIdx, p.currentField⟩] = _
    rw [h.done, h.col, h.row, h.cur]

theorem At.recordOk (h : At escape comma n quoted row col cur done p) (hcol : col + 1 = n) :
    p.RecordOk := by
  refine ⟨.inl h.trailing, ?_⟩
  cases hf : p.afterFirstRow with
  | false => exact .inl rfl
  | true =>
    right
    rw [width, h.trailing, h.numCols hf, h.col]
    exact hcol

/-- After the last field of a record. -/
theorem At.recordEnd (h : At escape comma n quoted row col cur done p) (hcol : col + 1 = n)
    {q : CSVParser} (hq : q = p.recordEnd.endIter false true ∨
      q = { p.recordEnd with afterRecordSep := true, newlining := false }) :
    At escape comma n quoted (row + 1) 0 [] (done ++ [⟨col, row, cur⟩]) q := by
  have hfields : p.recordEnd.fields = done ++ [⟨col, row, cur⟩] := by
    simp [CSVParser.recordEnd, h.trailing, h.done, h.col, h.row, h.cur]
  have hcur : p.recordEnd.currentField = [] := by
    simp [CSVParser.recordEnd, h.trailing]
  have hwidth : p.recordEnd.numCols = n := by
    simp [CSVParser.recordEnd, width, h.trailing, h.col, hcol]
  have hrow : p.recordEnd.rowIdx = row + 1 := by
    simp [CSVParser.recordEnd, h.row]
  rcases hq with rfl | rfl
  · exact ⟨h.escape, h.comma, h.trailing, h.quoted, hrow, rfl, hcur, hfields, h.idle,
      fun _ => hwidth⟩
  · exact ⟨h.escape, h.comma, h.trailing, h.quoted, hrow, rfl, hcur, hfields, ⟨h.idle.1, rfl⟩,
      fun _ => hwidth⟩

/-! ## Steps of the loop -/

theorem loop_next {c : UInt8} {rest : List UInt8} {q : CSVParser}
    (h : p.iter c rest.head? = .next q false) : p.loop (c :: rest) = q.loop rest := by
  rw [loop, h]

theorem loop_skip {c d : UInt8} {rest : List UInt8} {q : CSVParser}
    (h : p.iter c (some d) = .next q true) : p.loop (c :: d :: rest) = q.loop rest := by
  rw [loop, List.head?_cons, h]

/-- A byte of a bare field. -/
theorem iter_bare {c : UInt8} (hq : p.quoted = false) (hcomma : c ≠ p.comma) (hlf : c ≠ lf)
    (hcr : c ≠ cr) (hquote : c ≠ quote) (a : Option UInt8) :
    p.iter c a = .next ((p.push c).endIter false false) false := by
  unfold iter
  by_cases he : c = p.escape
  · rw [if_neg (fun h => h.2.2.2.2 he), if_neg hcomma, if_neg (not_or.mpr ⟨hlf, hcr⟩),
      if_neg hquote, hq]
    rfl
  · rw [if_pos ⟨hcomma, hlf, hcr, hquote, he⟩]

/-- A byte of a quoted field that is neither a quote nor the escape. -/
theorem iter_quoted {c : UInt8} (hq : p.quoted = true) (hquote : c ≠ quote) (he : c ≠ p.escape)
    (a : Option UInt8) : p.iter c a = .next ((p.push c).endIter false false) false := by
  unfold iter
  by_cases hcomma : c = p.comma
  · rw [if_neg (fun h => h.1 hcomma), if_pos hcomma, hq]
    rfl
  · by_cases hn : c = lf ∨ c = cr
    · rw [if_neg (fun h => hn.elim h.2.1 h.2.2.1), if_neg hcomma, if_pos hn, hq]
      rfl
    · rw [if_pos ⟨hcomma, fun h => hn (.inl h), fun h => hn (.inr h), hquote, he⟩]

theorem iter_comma (hq : p.quoted = false) (a : Option UInt8) :
    p.iter p.comma a =
      .next (endIter { p.onField with colIdx := p.colIdx + 1 } true false) false := by
  unfold iter
  rw [if_neg (fun h => h.1 rfl), if_pos rfl, hq]
  rfl

/-- A quote where a field begins. -/
theorem iter_open (hq : p.quoted = false) (hcomma : p.comma ≠ quote) (a : Option UInt8) :
    p.iter quote a = .next (endIter { p with quoted := true } false false) false := by
  unfold iter
  rw [if_neg (fun h => h.2.2.2.1 rfl), if_neg hcomma.symm, if_neg (by decide), if_pos rfl, hq]
  by_cases he : p.escape = quote
  · rw [if_pos he]
    rfl
  · rw [if_neg he]
    rfl

/-- The escape in a quoted field, with the byte it protects. -/
theorem iter_escape (hq : p.quoted = true) (he : p.escape = backslash)
    (hcomma : p.comma ≠ backslash) {d : UInt8} (hd : d = quote ∨ d = backslash) :
    p.iter backslash (some d) = .next ((p.push d).endIter false false) true := by
  rw [iter_escape_ahead hcomma.symm (by decide) (by decide) (by decide) he.symm hq, he, if_pos hd]

/-- The quote that closes a field, when quotes are escaped by backslashes. -/
theorem iter_close (hq : p.quoted = true) (he : p.escape ≠ quote) (hcomma : p.comma ≠ quote)
    (a : Option UInt8) :
    p.iter quote a = .next (endIter { p with quoted := false } false false) false := by
  unfold iter
  rw [if_neg (fun h => h.2.2.2.1 rfl), if_neg hcomma.symm, if_neg (by decide), if_pos rfl,
    if_neg he, hq]
  rfl

/-! ## Fields -/

/-- The loop reads `text`, with one of the `ahead` after it, as a field of the given value. -/
def Parses (escape comma : UInt8) (ahead : List UInt8 → Prop) (text value : List UInt8) : Prop :=
  ∀ (n row col : Nat) (done : List FieldCall) (p : CSVParser) (rest : List UInt8),
    At escape comma n false row col [] done p → ahead rest →
      ∃ q, At escape comma n false row col value done q ∧ p.loop (text ++ rest) = q.loop rest ∧
        (q.afterRecordSep = true → text = [] ∧ p.afterRecordSep = true)

/-- Nothing in particular. -/
def Anything (_ : List UInt8) : Prop := True

theorem loop_bare (h : At escape comma n false row col cur done p) (bytes rest : List UInt8)
    (hbytes : ∀ c ∈ bytes, c ≠ comma ∧ c ≠ lf ∧ c ≠ cr ∧ c ≠ quote) :
    ∃ q, At escape comma n false row col (cur ++ bytes) done q ∧
      p.loop (bytes ++ rest) = q.loop rest ∧
        (q.afterRecordSep = true → bytes = [] ∧ p.afterRecordSep = true) := by
  induction bytes generalizing p cur with
  | nil => exact ⟨p, by simpa using h, rfl, fun hq => ⟨rfl, hq⟩⟩
  | cons c bytes ih =>
    obtain ⟨hcomma, hlf, hcr, hquote⟩ := hbytes c (by simp)
    obtain ⟨q, hat, hloop, hsep⟩ := ih (h.push c) fun d hd => hbytes d (by simp [hd])
    refine ⟨q, by rwa [List.append_assoc] at hat, ?_, fun hq => ?_⟩
    swap
    · exact absurd (hsep hq).2 (by simp [endIter])
    rw [List.cons_append, loop_next (iter_bare h.quoted (h.comma ▸ hcomma) hlf hcr hquote _), hloop]

theorem parses_bare {bytes : List UInt8}
    (hbytes : ∀ c ∈ bytes, c ≠ comma ∧ c ≠ lf ∧ c ≠ cr ∧ c ≠ quote) :
    Parses escape comma Anything bytes bytes :=
  fun _ _ _ _ _ rest h _ => loop_bare h bytes rest hbytes

/-! ## Quotes escaped by backslashes -/

/-- A byte of a quoted field, with a backslash before it if it needs one. -/
def escapeByte (c : UInt8) : List UInt8 :=
  if c = quote ∨ c = backslash then [backslash, c] else [c]

/-- A field in quotes. -/
def escapeField (bytes : List UInt8) : List UInt8 := quote :: bytes.flatMap escapeByte ++ [quote]

theorem loop_escaped (hcomma : comma ≠ backslash)
    (h : At backslash comma n true row col cur done p) (bytes rest : List UInt8) :
    ∃ q, At backslash comma n true row col (cur ++ bytes) done q ∧
      p.loop (bytes.flatMap escapeByte ++ rest) = q.loop rest := by
  induction bytes generalizing p cur with
  | nil => exact ⟨p, by simpa using h, rfl⟩
  | cons c bytes ih =>
    obtain ⟨q, hat, hloop⟩ := ih (h.push c)
    rw [List.append_assoc] at hat
    refine ⟨q, hat, ?_⟩
    rw [List.flatMap_cons, List.append_assoc, ← hloop]
    by_cases hc : c = quote ∨ c = backslash
    · unfold escapeByte
      rw [if_pos hc]
      exact loop_skip (iter_escape h.quoted h.escape (h.comma ▸ hcomma) hc)
    · unfold escapeByte
      rw [if_neg hc]
      exact loop_next (iter_quoted h.quoted (fun h' => hc (.inl h'))
        (fun h' => hc (.inr (h'.trans h.escape))) _)

theorem parses_escaped (hquote : comma ≠ quote) (hcomma : comma ≠ backslash)
    (bytes : List UInt8) : Parses backslash comma Anything (escapeField bytes) bytes := by
  intro n row col done p rest h _
  obtain ⟨q, hat, hloop⟩ := loop_escaped hcomma (h.setQuoted true) bytes (quote :: rest)
  have hclose := iter_close hat.quoted (by rw [hat.escape]; decide) (hat.comma ▸ hquote) rest.head?
  refine ⟨_, hat.setQuoted false, ?_, fun hq => absurd hq (by simp [endIter])⟩
  unfold escapeField
  rw [List.cons_append, List.cons_append, List.append_assoc, List.singleton_append,
    loop_next (iter_open h.quoted (h.comma ▸ hquote) _), hloop, loop_next hclose]

/-! ## Doubled quotes -/

def doubleByte (c : UInt8) : List UInt8 := if c = quote then [quote, quote] else [c]

/-- A field in quotes, with each quote in it doubled. -/
def doubleField (bytes : List UInt8) : List UInt8 := quote :: bytes.flatMap doubleByte ++ [quote]

theorem loop_doubled (hcomma : comma ≠ quote)
    (h : At quote comma n true row col cur done p) (bytes rest : List UInt8) :
    ∃ q, At quote comma n true row col (cur ++ bytes) done q ∧
      p.loop (bytes.flatMap doubleByte ++ rest) = q.loop rest := by
  induction bytes generalizing p cur with
  | nil => exact ⟨p, by simpa using h, rfl⟩
  | cons c bytes ih =>
    obtain ⟨q, hat, hloop⟩ := ih (h.push c)
    rw [List.append_assoc] at hat
    refine ⟨q, hat, ?_⟩
    rw [List.flatMap_cons, List.append_assoc, ← hloop]
    by_cases hc : c = quote
    · have hiter := iter_quote_ahead (p := p) (h.comma ▸ hcomma.symm) rfl h.escape h.quoted quote
      rw [if_pos rfl] at hiter
      unfold doubleByte
      rw [if_pos hc, hc]
      exact loop_skip hiter
    · unfold doubleByte
      rw [if_neg hc]
      exact loop_next (iter_quoted h.quoted hc (fun h' => hc (h'.trans h.escape)) _)

/-- What may come after a field in quotes for its last quote to close it. -/
def ClosesQuote (rest : List UInt8) : Prop := ∃ d rest', rest = d :: rest' ∧ d ≠ quote

theorem parses_doubled (hcomma : comma ≠ quote) (bytes : List UInt8) :
    Parses quote comma ClosesQuote (doubleField bytes) bytes := by
  rintro n row col done p _ h ⟨d, rest, rfl, hd⟩
  obtain ⟨q, hat, hloop⟩ := loop_doubled hcomma (h.setQuoted true) bytes (quote :: d :: rest)
  have hclose := iter_quote_ahead (p := q) (hat.comma ▸ hcomma.symm) rfl hat.escape hat.quoted d
  rw [if_neg hd] at hclose
  refine ⟨_, hat.setQuoted false, ?_, fun hq => absurd hq (by simp [endIter])⟩
  unfold doubleField
  rw [List.cons_append, List.cons_append, List.append_assoc, List.singleton_append,
    loop_next (iter_open h.quoted (h.comma ▸ hcomma) _), hloop, loop_next hclose]

/-- At the end of the input the last quote is left undecided. -/
theorem loop_doubled_end (hcomma : comma ≠ quote) (h : At quote comma n false row col [] done p)
    (bytes : List UInt8) : ∃ q, q.quoted = true ∧ p.loop (doubleField bytes) = (.ok, q) := by
  obtain ⟨q, hat, hloop⟩ := loop_doubled hcomma (h.setQuoted true) bytes [quote]
  have hstop : q.iter quote none = .stop .ok { q with escaping := true } := by
    unfold iter
    rw [if_neg (fun h => h.2.2.2.1 rfl), if_neg (hat.comma ▸ hcomma.symm), if_neg (by decide),
      if_pos rfl, if_pos hat.escape, hat.quoted]
    rfl
  refine ⟨{ q with escaping := true }, hat.quoted, ?_⟩
  unfold doubleField
  rw [List.cons_append, loop_next (iter_open h.quoted (h.comma ▸ hcomma) _), hloop,
    loop, List.head?_nil, hstop]

/-! ## Records -/

theorem recordCalls_cons (row col : Nat) (v : List UInt8) (vs : List (List UInt8)) :
    recordCalls row col (v :: vs) = ⟨col, row, v⟩ :: recordCalls row (col + 1) vs := by
  simp [recordCalls, List.zipIdx_cons]

/-- Fields each followed by a separator. -/
theorem loop_fields {ahead : List UInt8 → Prop} (hahead : ∀ rest, ahead (comma :: rest))
    {texts values : List (List UInt8)}
    (hfields : List.Forall₂ (Parses escape comma ahead) texts values)
    (h : At escape comma n false row col [] done p) (rest : List UInt8) :
    ∃ q, At escape comma n false row (col + values.length) []
        (done ++ recordCalls row col values) q ∧
      p.loop (texts.flatMap (· ++ [comma]) ++ rest) = q.loop rest ∧
      (q.afterRecordSep = true → texts = [] ∧ p.afterRecordSep = true) := by
  induction hfields generalizing p col done with
  | nil => exact ⟨p, by simpa [recordCalls] using h, rfl, fun hq => ⟨rfl, hq⟩⟩
  | @cons text value texts values hfield _ ih =>
    obtain ⟨q₁, hat₁, hloop₁, -⟩ := hfield n row col done p
      (comma :: (texts.flatMap (· ++ [comma]) ++ rest)) h (hahead _)
    obtain ⟨q₂, hat₂, hloop₂, hsep⟩ := ih hat₁.nextField
    rw [Nat.add_assoc, Nat.add_comm 1, List.append_assoc, List.singleton_append,
      ← recordCalls_cons] at hat₂
    refine ⟨q₂, hat₂, ?_, fun hq => absurd (hsep hq).2 (by simp [endIter])⟩
    have hiter := iter_comma hat₁.quoted (texts.flatMap (· ++ [comma]) ++ rest).head?
    rw [hat₁.comma] at hiter
    rw [List.flatMap_cons, List.append_assoc, List.append_assoc, List.singleton_append, hloop₁,
      loop_next hiter, hloop₂]

/-- The text of a record without its end. -/
def recordText (comma : UInt8) : List (List UInt8) → List UInt8
  | [] => []
  | [text] => text
  | text :: texts => text ++ comma :: recordText comma texts

theorem recordText_concat (comma : UInt8) (texts : List (List UInt8)) (last : List UInt8) :
    recordText comma (texts ++ [last]) = texts.flatMap (· ++ [comma]) ++ last := by
  induction texts with
  | nil => rfl
  | cons text texts ih =>
    have hcons : recordText comma (text :: (texts ++ [last])) =
        text ++ comma :: recordText comma (texts ++ [last]) := by
      cases texts <;> rfl
    rw [List.cons_append, hcons, ih, List.flatMap_cons]
    simp

/-- A line break where the next record begins would be taken for the end of an empty one. -/
def LineSafe (rest : List UInt8) : Prop := rest ≠ [] ∧ rest.head? ≠ some lf

theorem At.endRecord (h : At escape comma n quoted row col cur done p) (hcol : col + 1 = n) :
    p.endRecord = (.ok, p.recordEnd) := endRecord_ok (h.recordOk hcol)

/-- The end of a record before another one, or one that is not a lone CR. -/
theorem loop_terminator (hlf : comma ≠ lf) (hcr : comma ≠ cr)
    (h : At escape comma n false row col cur done p) (hcol : col + 1 = n) (t : Terminator)
    (rest : List UInt8) (hrest : t = .cr → LineSafe rest) :
    ∃ q, At escape comma n false (row + 1) 0 [] (done ++ [⟨col, row, cur⟩]) q ∧
      p.loop (t.bytes ++ rest) = q.loop rest ∧ q.afterRecordSep = true := by
  refine ⟨p.recordEnd.endIter false true, h.recordEnd hcol (.inl rfl), ?_, rfl⟩
  have hend := h.endRecord hcol
  cases t with
  | lf =>
    apply loop_next
    rw [iter_newline (h.comma ▸ hlf.symm) (.inl rfl) h.quoted, if_neg (by simp [lf, cr]), hend]
    simp [lf, cr]
  | crlf =>
    apply loop_skip
    rw [iter_newline (h.comma ▸ hcr.symm) (.inr rfl) h.quoted, if_neg (by simp), hend]
    simp
  | cr =>
    obtain ⟨hne, hhead⟩ := hrest rfl
    obtain ⟨d, rest, rfl⟩ := List.exists_cons_of_ne_nil hne
    have hd : d ≠ lf := fun hd => hhead (by rw [hd, List.head?_cons])
    apply loop_next
    rw [iter_newline (h.comma ▸ hcr.symm) (.inr rfl) h.quoted, if_neg (by simp), hend]
    simp [hd]

/-- A lone CR at the end of the input: the record is ended by `finish`. -/
theorem finish_cr (hcr : comma ≠ cr) (h : At escape comma n false row col cur done p)
    (hcol : col + 1 = n) : ∃ q, p.loop [cr] = (.ok, q) ∧ ∃ q', q.finish = (.ok, q') ∧
      q'.fields = done ++ [⟨col, row, cur⟩] := by
  have hstop : p.iter cr none = .stop .ok { p with newlining := true } := by
    rw [iter_newline (h.comma ▸ hcr.symm) (.inr rfl) h.quoted, if_pos ⟨rfl, rfl⟩]
  have hok : RecordOk { p with newlining := true } := h.recordOk hcol
  have hq : ({ p with newlining := true } : CSVParser).quoted = false := h.quoted
  have he : ({ p with newlining := true } : CSVParser).escaping = false := h.idle.1
  refine ⟨{ p with newlining := true }, by rw [loop, List.head?_nil, hstop], ?_⟩
  rw [finish_unquoted hq, if_pos rfl, execute_newlining he rfl, endRecord_ok hok]
  exact ⟨_, rfl, (h.recordEnd hcol (.inr rfl)).done⟩

/-- A record without its end at the end of the input. -/
theorem finish_open (hlf : comma ≠ lf) (h : At escape comma n false row col cur done p)
    (hcol : col + 1 = n) (hsep : p.afterRecordSep = false) :
    ∃ q, p.finish = (.ok, q) ∧ q.fields = done ++ [⟨col, row, cur⟩] := by
  have hiter : p.iter lf none = .next (p.recordEnd.endIter false true) false := by
    rw [iter_newline (h.comma ▸ hlf.symm) (.inl rfl) h.quoted, if_neg (by simp [lf, cr]),
      h.endRecord hcol]
    simp [lf, cr]
  rw [finish_unquoted h.quoted, h.idle.2, if_neg Bool.false_ne_true, hsep,
    if_pos (by decide), execute_idle h.idle, loop_next hiter]
  exact ⟨_, rfl, (h.recordEnd hcol (.inl rfl)).done⟩

/-- After the end of the last record nothing is pending. -/
theorem finish_idle (h : At escape comma n false row col cur done p)
    (hsep : p.afterRecordSep = true) : p.finish = (.ok, p) := by
  rw [finish_unquoted h.quoted, h.idle.2, if_neg Bool.false_ne_true, hsep, if_neg (by decide)]

/-! ## The whole text -/

section Text

variable {F : Type} {enc val : F → List UInt8} {ahead : List UInt8 → Prop}

/-- The text of records, each with its end. -/
def recordsText (enc : F → List UInt8) (comma : UInt8) (records : List (List F × Terminator)) :
    List UInt8 :=
  records.flatMap fun r => recordText comma (r.1.map enc) ++ r.2.bytes

/-- A record up to the end of its last field. -/
theorem loop_record (hahead : ∀ rest, ahead (comma :: rest))
    {record : List F} (hfields : ∀ f ∈ record, Parses escape comma ahead (enc f) (val f))
    (hlen : record.length = n) (hn : 0 < n) (h : At escape comma n false row 0 [] done p)
    {rest : List UInt8} (hrest : ahead rest) :
    ∃ q cur done', At escape comma n false row (n - 1) cur done' q ∧
      done' ++ [⟨n - 1, row, cur⟩] = done ++ recordCalls row 0 (record.map val) ∧
      p.loop (recordText comma (record.map enc) ++ rest) = q.loop rest ∧
      (q.afterRecordSep = true →
        recordText comma (record.map enc) = [] ∧ p.afterRecordSep = true) := by
  obtain ⟨fields, last, rfl⟩ := (List.eq_nil_or_concat' record).resolve_left
    (List.ne_nil_of_length_pos (hlen ▸ hn))
  have hcount : fields.length = n - 1 := by
    rw [List.length_append, List.length_singleton] at hlen
    omega
  have hparses : List.Forall₂ (Parses escape comma ahead) (fields.map enc) (fields.map val) := by
    rw [List.forall₂_map_left_iff, List.forall₂_map_right_iff, List.forall₂_same]
    exact fun f hf => hfields f (by simp [hf])
  obtain ⟨q₁, hat₁, hloop₁, hsep₁⟩ := loop_fields hahead hparses h (enc last ++ rest)
  rw [List.length_map, hcount, Nat.zero_add] at hat₁
  obtain ⟨q₂, hat₂, hloop₂, hsep₂⟩ := hfields last (by simp) n row (n - 1) _ q₁ rest hat₁ hrest
  refine ⟨q₂, val last, _, hat₂, ?_, ?_, fun hq => ?_⟩
  · rw [List.append_assoc, List.map_append, recordCalls, recordCalls, List.zipIdx_append]
    simp [hcount]
  · rw [List.map_append, List.map_singleton, recordText_concat, List.append_assoc, hloop₁, hloop₂]
  · obtain ⟨hlast, hq₁⟩ := hsep₂ hq
    obtain ⟨hnil, hp⟩ := hsep₁ hq₁
    rw [List.map_append, List.map_singleton, recordText_concat, hnil, hlast]
    exact ⟨rfl, hp⟩

/-- Records with their ends, before more text. -/
theorem loop_records (hlf : comma ≠ lf) (hcr : comma ≠ cr) (hn : 0 < n)
    (hahead : ∀ rest, ahead (comma :: rest))
    (hahead' : ∀ (t : Terminator) (rest : List UInt8), ahead (t.bytes ++ rest))
    {records : List (List F × Terminator)}
    (hrecords : ∀ r ∈ records, r.1.length = n ∧
      (∀ f ∈ r.1, Parses escape comma ahead (enc f) (val f)) ∧
      ∀ rest, LineSafe (recordText comma (r.1.map enc) ++ rest))
    (h : At escape comma n false row 0 [] done p) {rest : List UInt8} (hrest : LineSafe rest) :
    ∃ q, At escape comma n false (row + records.length) 0 []
        (done ++ recordsCalls row (records.map fun r => r.1.map val)) q ∧
      p.loop (recordsText enc comma records ++ rest) = q.loop rest := by
  induction records generalizing p row done with
  | nil => exact ⟨p, by simpa [recordsCalls] using h, rfl⟩
  | cons r records ih =>
    obtain ⟨hlen, hfields, -⟩ := hrecords r (by simp)
    have hsafe : LineSafe (recordsText enc comma records ++ rest) := by
      cases records with
      | nil => exact hrest
      | cons r' records =>
        unfold recordsText
        rw [List.flatMap_cons, List.append_assoc, List.append_assoc]
        exact (hrecords r' (by simp)).2.2 _
    obtain ⟨q₁, cur, done', hat₁, hdone, hloop₁, -⟩ := loop_record hahead hfields hlen hn h
      (hahead' r.2 (recordsText enc comma records ++ rest))
    obtain ⟨q₂, hat₂, hloop₂, -⟩ :=
      loop_terminator hlf hcr hat₁ (by omega) r.2 _ fun _ => hsafe
    rw [hdone] at hat₂
    obtain ⟨q₃, hat₃, hloop₃⟩ := ih (fun r' hr' => hrecords r' (List.mem_cons_of_mem r hr')) hat₂
    rw [Nat.add_assoc, Nat.add_comm 1, List.append_assoc] at hat₃
    refine ⟨q₃, by simpa [recordsCalls, List.zipIdx_cons] using hat₃, ?_⟩
    unfold recordsText
    rw [List.flatMap_cons, ← recordsText, List.append_assoc, List.append_assoc,
      hloop₁, hloop₂, hloop₃]

/-- The last record with its end. -/
theorem finish_record (hlf : comma ≠ lf) (hcr : comma ≠ cr) (hn : 0 < n)
    (hahead : ∀ rest, ahead (comma :: rest)) (t : Terminator) (hahead' : ahead t.bytes)
    {record : List F} (hfields : ∀ f ∈ record, Parses escape comma ahead (enc f) (val f))
    (hlen : record.length = n) (h : At escape comma n false row 0 [] done p) :
    ∃ q, p.loop (recordText comma (record.map enc) ++ t.bytes) = (.ok, q) ∧
      ∃ q', q.finish = (.ok, q') ∧
        q'.fields = done ++ recordCalls row 0 (record.map val) := by
  obtain ⟨q₁, cur, done', hat, hdone, hloop, -⟩ :=
    loop_record hahead hfields hlen hn h hahead'
  rw [hloop, ← hdone]
  by_cases ht : t = .cr
  · rw [ht]
    exact finish_cr hcr hat (by omega)
  · obtain ⟨q₂, hat₂, hloop₂, hsep⟩ :=
      loop_terminator hlf hcr hat (by omega) t [] fun h' => absurd h' ht
    rw [List.append_nil] at hloop₂
    exact ⟨q₂, hloop₂, q₂, finish_idle hat₂ hsep, hat₂.done⟩

end Text

theorem recordsCalls_concat (row : Nat) (records : List (List (List UInt8)))
    (last : List (List UInt8)) : recordsCalls row (records ++ [last]) =
      recordsCalls row records ++ recordCalls (row + records.length) 0 last := by
  simp [recordsCalls, List.zipIdx_append]

/-! ## The dialect of `from_csv` -/

/-- A field as it is written. -/
inductive FieldText where
  | bare (bytes : List UInt8)
  | quoted (bytes : List UInt8)
  deriving DecidableEq

def FieldText.value : FieldText → List UInt8
  | .bare bytes => bytes
  | .quoted bytes => bytes

def FieldText.text : FieldText → List UInt8
  | .bare bytes => bytes
  | .quoted bytes => escapeField bytes

/-- A record of `n` fields of which the bare ones need no quotes. -/
structure RecordFits (comma : UInt8) (n : Nat) (record : List FieldText) : Prop where
  length : record.length = n
  bare : ∀ bytes, .bare bytes ∈ record → ∀ c ∈ bytes, c ≠ comma ∧ c ≠ lf ∧ c ≠ cr ∧ c ≠ quote
  nonempty : record ≠ [.bare []]

/-- The text of records, the last one with or without its end. -/
def csvText (comma : UInt8) (records : List (List FieldText × Terminator)) (last : List FieldText)
    (final : Option Terminator) : List UInt8 :=
  recordsText FieldText.text comma records ++
    (recordText comma (last.map FieldText.text) ++ (final.map Terminator.bytes).getD [])

theorem RecordFits.parses {record : List FieldText} (h : RecordFits comma n record)
    (hquote : comma ≠ quote) (hbackslash : comma ≠ backslash) :
    ∀ f ∈ record, Parses backslash comma Anything f.text f.value := by
  intro f hf
  cases f with
  | bare bytes => exact parses_bare (h.bare bytes hf)
  | quoted bytes => exact parses_escaped hquote hbackslash bytes

/-- No record begins with a line break. -/
theorem RecordFits.lineSafe {record : List FieldText} (h : RecordFits comma n record) (hn : 0 < n)
    (hlf : comma ≠ lf) (rest : List UInt8) :
    LineSafe (recordText comma (record.map FieldText.text) ++ rest) := by
  have hfirst : ∀ (f : FieldText) (tail : List UInt8), f ∈ record → f.text ≠ [] →
      LineSafe (f.text ++ tail) := by
    intro f tail hf hne
    obtain ⟨c, bytes, htext⟩ := List.exists_cons_of_ne_nil hne
    refine ⟨by simp [hne], ?_⟩
    cases f with
    | bare b =>
      have htext : b = c :: bytes := htext
      have hc := (h.bare b hf c (by simp [htext])).2.1
      simpa [FieldText.text, htext] using hc
    | quoted b => simp [FieldText.text, escapeField, quote, lf]
  match record, h with
  | [], h =>
    have := h.length
    simp at this
    omega
  | [f], h =>
    apply hfirst f rest (by simp)
    intro hnil
    cases f with
    | bare bytes => exact h.nonempty (by rw [show bytes = [] from hnil])
    | quoted bytes => simp [FieldText.text, escapeField] at hnil
  | f :: g :: record, h =>
    show LineSafe (f.text ++ comma :: recordText comma ((g :: record).map FieldText.text) ++ rest)
    by_cases hnil : f.text = []
    · rw [hnil]
      exact ⟨by simp, by simp [hlf]⟩
    · rw [List.append_assoc]
      exact hfirst f _ (by simp) hnil

/-- `execute` and `finish` give back the fields of encoded records. -/
theorem execute_csvText {comma : UInt8} (hquote : comma ≠ quote) (hbackslash : comma ≠ backslash)
    (hlf : comma ≠ lf) (hcr : comma ≠ cr) {n : Nat} (hn : 0 < n)
    (records : List (List FieldText × Terminator)) (last : List FieldText)
    (final : Option Terminator) (hrecords : ∀ r ∈ records, RecordFits comma n r.1)
    (hlast : RecordFits comma n last) :
    ∃ q q', execute { escape := backslash, comma := comma } (csvText comma records last final) =
        (.ok, q) ∧ q.finish = (.ok, q') ∧
      q'.fields = recordsCalls 0
        ((records.map fun r => r.1.map FieldText.value) ++ [last.map FieldText.value]) := by
  have hall : ∀ r ∈ records, r.1.length = n ∧
      (∀ f ∈ r.1, Parses backslash comma Anything (FieldText.text f) (FieldText.value f)) ∧
      ∀ rest, LineSafe (recordText comma (r.1.map FieldText.text) ++ rest) := fun r hr =>
    ⟨(hrecords r hr).length, (hrecords r hr).parses hquote hbackslash,
      (hrecords r hr).lineSafe hn hlf⟩
  have hparses := hlast.parses hquote hbackslash
  obtain ⟨q₁, hat, hloop⟩ := loop_records hlf hcr hn (fun _ => trivial) (fun _ _ => trivial) hall
    (at_init backslash comma n) (hlast.lineSafe hn hlf ((final.map Terminator.bytes).getD []))
  rw [recordsCalls_concat, execute_idle ⟨rfl, rfl⟩, csvText, hloop, List.length_map]
  cases final with
  | some t =>
    obtain ⟨q, hq, q', hfinish, hfields⟩ :=
      finish_record hlf hcr hn (fun _ => trivial) t trivial hparses hlast.length hat
    exact ⟨q, q', hq, hfinish, hfields⟩
  | none =>
    have hend : Anything [] := trivial
    obtain ⟨q, cur, done, hat', hdone, hloop', hsep⟩ :=
      loop_record (fun _ => trivial) hparses hlast.length hn hat hend
    have hopen : q.afterRecordSep = false := by
      by_contra hne
      have hnil := (hsep (by simpa using hne)).1
      have hsafe := (hlast.lineSafe hn hlf []).1
      rw [hnil] at hsafe
      exact hsafe rfl
    obtain ⟨q', hfinish, hfields⟩ := finish_open hlf hat' (by omega) hopen
    exact ⟨q, q', hloop', hfinish, by rw [hfields, hdone]; rfl⟩

/-- The fields `a\` and `x",` LF end in a lone CR; then an empty field and `""` without an end. -/
theorem execute_csvText_two :
    ∃ q q', execute { escape := backslash, comma := 44 } (csvText 44
        [([.bare [97, 92], .quoted [120, 34, 44, 10]], .cr)] [.bare [], .quoted []] none) =
        (.ok, q) ∧ q.finish = (.ok, q') ∧
      q'.fields = [⟨0, 0, [97, 92]⟩, ⟨1, 0, [120, 34, 44, 10]⟩, ⟨0, 1, []⟩, ⟨1, 1, []⟩] :=
  execute_csvText (n := 2) (by decide) (by decide) (by decide) (by decide) (by decide) _ _ none
    (fun r hr => by
      obtain rfl := List.mem_singleton.mp hr
      exact ⟨rfl, by simp [lf, cr, quote], by simp⟩)
    ⟨rfl, by simp, by simp⟩

/-! ## The default dialect -/

/-- The text of records with all fields in quotes, the last one with or without its end. -/
def doubledText (comma : UInt8) (records : List (List (List UInt8) × Terminator))
    (last : List (List UInt8)) (final : Option Terminator) : List UInt8 :=
  recordsText doubleField comma records ++
    (recordText comma (last.map doubleField) ++ (final.map Terminator.bytes).getD [])

theorem closesQuote_terminator (t : Terminator) (rest : List UInt8) :
    ClosesQuote (t.bytes ++ rest) := by
  cases t with
  | lf => exact ⟨lf, rest, rfl, by decide⟩
  | crlf => exact ⟨cr, lf :: rest, rfl, by decide⟩
  | cr => exact ⟨cr, rest, rfl, by decide⟩

/-- A record of quoted fields begins with a quote. -/
theorem recordText_doubled (comma : UInt8) {record : List (List UInt8)} (hne : record ≠ []) :
    ∃ tail, recordText comma (record.map doubleField) = quote :: tail := by
  obtain ⟨f, fields, rfl⟩ := List.exists_cons_of_ne_nil hne
  cases fields with
  | nil => exact ⟨_, rfl⟩
  | cons g fields => exact ⟨_, rfl⟩

theorem lineSafe_doubled (comma : UInt8) {record : List (List UInt8)} (hne : record ≠ [])
    (rest : List UInt8) : LineSafe (recordText comma (record.map doubleField) ++ rest) := by
  obtain ⟨tail, htail⟩ := recordText_doubled comma hne
  rw [htail]
  exact ⟨by simp, by simp [quote, lf]⟩

/-- Without its end the last record leaves the last quote undecided. -/
theorem loop_doubled_open (hquote : comma ≠ quote) {last : List (List UInt8)} (hne : last ≠ [])
    (h : At quote comma n false row 0 [] done p) :
    ∃ q, q.quoted = true ∧ p.loop (recordText comma (last.map doubleField)) = (.ok, q) := by
  obtain ⟨fields, f, rfl⟩ := (List.eq_nil_or_concat' last).resolve_left hne
  have hparses : List.Forall₂ (Parses quote comma ClosesQuote) (fields.map doubleField)
      fields := by
    rw [List.forall₂_map_left_iff, List.forall₂_same]
    exact fun f _ => parses_doubled hquote f
  obtain ⟨q, hat, hloop, -⟩ := loop_fields (fun rest => ⟨comma, rest, rfl, hquote⟩) hparses h
    (doubleField f)
  rw [List.map_append, List.map_singleton, recordText_concat, hloop]
  exact loop_doubled_end hquote hat f

/-- What `execute` and `finish` make of the whole text. -/
theorem outcome_doubledText {comma : UInt8} (hquote : comma ≠ quote) (hlf : comma ≠ lf)
    (hcr : comma ≠ cr) {n : Nat} (hn : 0 < n)
    (records : List (List (List UInt8) × Terminator)) (last : List (List UInt8))
    (final : Option Terminator) (hrecords : ∀ r ∈ records, r.1.length = n)
    (hlast : last.length = n) :
    outcome (andThen (execute { comma := comma } (doubledText comma records last final)) finish) =
        (recordsCalls 0 (records.map Prod.fst ++ [last]), true) ↔ final ≠ none := by
  have hparses : ∀ f : List UInt8, Parses quote comma ClosesQuote (doubleField f) (id f) :=
    parses_doubled hquote
  have hahead : ∀ rest, ClosesQuote (comma :: rest) := fun rest => ⟨comma, rest, rfl, hquote⟩
  have hall : ∀ r ∈ records, r.1.length = n ∧
      (∀ f ∈ r.1, Parses quote comma ClosesQuote (doubleField f) (id f)) ∧
      ∀ rest, LineSafe (recordText comma (r.1.map doubleField) ++ rest) := fun r hr =>
    ⟨hrecords r hr, fun f _ => hparses f,
      lineSafe_doubled comma (List.ne_nil_of_length_pos (hrecords r hr ▸ hn))⟩
  have hlast' : last ≠ [] := List.ne_nil_of_length_pos (hlast ▸ hn)
  obtain ⟨q₁, hat, hloop⟩ := loop_records hlf hcr hn hahead closesQuote_terminator hall
    (at_init quote comma n) (lineSafe_doubled comma hlast' ((final.map Terminator.bytes).getD []))
  have hcalls : records.map (fun r => r.1.map id) = records.map Prod.fst :=
    List.map_congr_left fun r _ => List.map_id r.1
  rw [hcalls, List.nil_append, Nat.zero_add] at hat
  rw [execute_idle ⟨rfl, rfl⟩, doubledText, hloop]
  cases final with
  | some t =>
    have hend : ClosesQuote t.bytes := by
      have := closesQuote_terminator t []
      rwa [List.append_nil] at this
    obtain ⟨q, hq, q', hfinish, hfields⟩ := finish_record hlf hcr hn hahead t hend
      (fun f (_ : f ∈ last) => hparses f) hlast hat
    have hrun : andThen (q₁.loop (recordText comma (last.map doubleField) ++
        ((some t).map Terminator.bytes).getD [])) finish = (.ok, q') := by
      show andThen (q₁.loop (recordText comma (last.map doubleField) ++ t.bytes)) finish = _
      rw [hq, ← hfinish]
      rfl
    rw [hrun, recordsCalls_concat, Nat.zero_add, List.length_map, outcome, hfields, List.map_id]
    simp
  | none =>
    obtain ⟨q, hq, hopen⟩ := loop_doubled_open hquote hlast' hat
    have hfinish : q.finish = (.quoteNotClosed, q) := by rw [finish, hq, if_pos rfl]
    have hrun : andThen (q₁.loop (recordText comma (last.map doubleField) ++
        ((none : Option Terminator).map Terminator.bytes).getD [])) finish =
        (.quoteNotClosed, q) := by
      show andThen (q₁.loop (recordText comma (last.map doubleField) ++ [])) finish = _
      rw [List.append_nil, hopen, ← hfinish]
      rfl
    rw [hrun]
    simp [outcome]

theorem doubledText_ne_nil (comma : UInt8) (records : List (List (List UInt8) × Terminator))
    {last : List (List UInt8)} (hne : last ≠ []) (final : Option Terminator) :
    doubledText comma records last final ≠ [] := by
  obtain ⟨tail, htail⟩ := recordText_doubled comma hne
  unfold doubledText
  rw [htail]
  simp

/-- In any chunks, `execute` and `finish` give back the fields of records in quotes if and only if
the last record has its end. -/
theorem feed_doubledText_iff {comma : UInt8} (hquote : comma ≠ quote) (hlf : comma ≠ lf)
    (hcr : comma ≠ cr) {n : Nat} (hn : 0 < n)
    (records : List (List (List UInt8) × Terminator)) (last : List (List UInt8))
    (final : Option Terminator) (hrecords : ∀ r ∈ records, r.1.length = n)
    (hlast : last.length = n) (chunks : List (List UInt8)) (hne : ∀ b ∈ chunks, b ≠ [])
    (hchunks : chunks.flatten = doubledText comma records last final) :
    outcome (andThen (feed { comma := comma } chunks) finish) =
        (recordsCalls 0 (records.map Prod.fst ++ [last]), true) ↔ final ≠ none := by
  have hlast' : last ≠ [] := List.ne_nil_of_length_pos (hlast ▸ hn)
  cases chunks with
  | nil => exact absurd hchunks.symm (doubledText_ne_nil comma records hlast' final)
  | cons b bs =>
    have hsame := ((feed_flatten (inv_init quote comma false) hne).andThen
      fun _ h => finish_sim h).outcome
    rw [hchunks] at hsame
    rw [← hsame]
    exact outcome_doubledText hquote hlf hcr hn records last final hrecords hlast

/-- `"a"""` LF, cut between the doubled quotes and before the closing one. -/
theorem feed_doubledText_iff_a :
    outcome (andThen (feed { comma := 44 } [[34, 97, 34], [34], [34, 10]]) finish) =
        ([⟨0, 0, [97, 34]⟩], true) ↔ some Terminator.lf ≠ none :=
  feed_doubledText_iff (n := 1) (by decide) (by decide) (by decide) (by decide) [] [[97, 34]]
    (some .lf) (by simp) rfl [[34, 97, 34], [34], [34, 10]] (by decide) rfl

/-- `"a"` at the end of the input. -/
theorem not_feed_doubledText : [[34, 97, 34]].flatten = doubledText 44 [] [[97]] none ∧
    outcome (andThen (feed { comma := 44 } [[34, 97, 34]]) finish) ≠ ([⟨0, 0, [97]⟩], true) := by
  decide

end CSVParser

end HashJoin
