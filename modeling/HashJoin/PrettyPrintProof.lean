import HashJoin.PrettyPrint

/-!
# Reading printed filters

Where two filters have one text, their lines go together until a string literal of the one goes on
over lines of the other, and again after it: this says which pairs of filters have one text. Without
such literals the indentation tells the lines of a filter apart. A reading of the text that ends a
literal in another place has its lines begin where lines begin, and of the lines below a header only
two have the indentation of its operands.
-/

namespace HashJoin

/-! ## Reading text -/

theorem LineStart.ne {c : UInt8} (h : LineStart c) : c ≠ space ∧ c ≠ newline ∧ c ≠ singleQuote := by
  rcases h with rfl | ⟨hlo, hhi⟩
  · decide
  · refine ⟨?_, ?_, ?_⟩ <;> rintro rfl <;> revert hlo <;> decide

theorem spaces_cancel {e e' : Nat} {c c' : UInt8} {u u' : List UInt8} (hc : c ≠ space)
    (hc' : c' ≠ space) (h : spaces e ++ c :: u = spaces e' ++ c' :: u') :
    e = e' ∧ c = c' ∧ u = u' := by
  induction e generalizing e' with
  | zero =>
    cases e' with
    | zero => simpa [spaces] using h
    | succ e' => exact absurd (List.cons.inj h).1 hc
  | succ e ih =>
    cases e' with
    | zero => exact absurd (List.cons.inj h).1.symm hc'
    | succ e' =>
      obtain ⟨rfl, hcu⟩ := ih (List.cons.inj h).2
      exact ⟨rfl, hcu⟩

/-- Two texts without the byte `c`, each at the end or before a `c`. -/
theorem cut_cancel {c : UInt8} {x y t r : List UInt8} (hx : c ∉ x) (hy : c ∉ y)
    (ht : t = [] ∨ ∃ t', t = c :: t') (hr : r = [] ∨ ∃ r', r = c :: r')
    (h : x ++ t = y ++ r) : x = y ∧ t = r := by
  induction x generalizing y with
  | nil =>
    cases y with
    | nil => exact ⟨rfl, h⟩
    | cons b y =>
      rcases ht with rfl | ⟨t', rfl⟩
      · simp at h
      · exact absurd (List.cons.inj h).1 fun hb => hy (hb ▸ List.mem_cons_self)
  | cons a x ih =>
    cases y with
    | nil =>
      rcases hr with rfl | ⟨r', rfl⟩
      · simp at h
      · exact absurd (List.cons.inj h).1 fun ha => hx (ha ▸ List.mem_cons_self)
    | cons b y =>
      obtain ⟨rfl, hrest⟩ := List.cons.inj h
      obtain ⟨rfl, rfl⟩ := ih (fun hm => hx (by simp [hm])) (fun hm => hy (by simp [hm])) hrest
      exact ⟨rfl, rfl⟩

/-- Bytes before a quote begin with any text without quotes that the whole begins with. -/
theorem exists_append_of_quote {a z b r : List UInt8} (hb : singleQuote ∉ b)
    (h : a ++ singleQuote :: z = b ++ r) : ∃ a', a = b ++ a' ∧ r = a' ++ singleQuote :: z := by
  rcases List.append_eq_append_iff.mp h with ⟨b', rfl, hr⟩ | ⟨a', ha, hr⟩
  · cases b' with
    | nil => exact ⟨[], by simp, by simpa using hr.symm⟩
    | cons c b' =>
      have hq : singleQuote = c := (List.cons.inj hr).1
      exact absurd (hq ▸ by simp) hb
  · exact ⟨a', ha, hr⟩

/-- The text after a line: nothing, or a newline and another line, indented. -/
def Rest (r : List UInt8) : Prop :=
  r = [] ∨ ∃ k c v, r = newline :: (spaces k ++ c :: v) ∧ 2 ≤ k ∧ LineStart c

theorem Rest.newline {r : List UInt8} (h : Rest r) : r = [] ∨ ∃ r', r = newline :: r' := by
  rcases h with rfl | ⟨k, c, v, rfl, -⟩
  · exact .inl rfl
  · exact .inr ⟨_, rfl⟩

/-- A string literal that another filter ends early, at a quote with the rest of its text after it,
imitates a line. -/
theorem imitates_of_cut {pre s t v z r : List UInt8} (hpre : singleQuote ∉ pre)
    (h : pre ++ singleQuote :: (s ++ [singleQuote]) = t ++ singleQuote :: v)
    (hv : v ≠ []) (hr : v ++ z = r)
    (hrest : Rest r) : Imitates s := by
  obtain ⟨t', rfl, hcut⟩ := exists_append_of_quote hpre h.symm
  obtain ⟨k, c, w, hline, hk, hc⟩ : ∃ k c w, v ++ z = newline :: (spaces k ++ c :: w) ∧ 2 ≤ k ∧
      LineStart c := by
    rcases hrest with rfl | ⟨k, c, w, hw, hk⟩
    · exact absurd (List.append_eq_nil_iff.mp hr).1 hv
    · exact ⟨k, c, w, hr.trans hw, hk⟩
  -- The literal ends with a quote, and the start of a line has none.
  obtain ⟨v', rfl⟩ : ∃ v', v = v' ++ [singleQuote] := by
    obtain ⟨v', q, rfl⟩ := (List.eq_nil_or_concat' v).resolve_left hv
    have hlast := congrArg List.getLast? hcut
    rw [← List.cons_append, List.getLast?_concat, ← List.cons_append, ← List.append_assoc,
      List.getLast?_concat] at hlast
    exact ⟨v', by rw [Option.some.inj hlast]⟩
  have hnone : singleQuote ∉ newline :: (spaces k ++ [c]) := by
    have := hc.ne.2.2
    simp only [List.mem_cons, List.mem_append, spaces, List.mem_replicate, List.not_mem_nil,
      or_false, not_or]
    exact ⟨by decide, fun h => absurd h.2 (by decide), Ne.symm this⟩
  obtain ⟨v'', rfl, -⟩ := exists_append_of_quote (z := z) (r := w) hnone (by simpa using hline)
  refine ⟨t', k, c, v'', ?_, hk, hc⟩
  have hcut' : singleQuote :: s ++ [singleQuote] =
      t' ++ singleQuote :: (newline :: (spaces k ++ c :: v'')) ++ [singleQuote] := by
    simpa using hcut
  exact List.append_cancel_right hcut'

/-! ## The lines of a filter -/

namespace Node

/-- The line prints the string `s`. -/
def Prints (node : Node) (s : List UInt8) : Prop :=
  ∃ column op, node = .comparison column op (.varchar s) ∧ op.PrintsLiteral

def IntOrString : Node → Prop
  | .comparison _ _ value => (∃ v, value = .int64 v) ∨ ∃ s, value = .varchar s
  | .and | .or | .not => True

variable {formatDouble : UInt64 → List UInt8}

theorem text_start (node : Node) : ∃ c u, node.text formatDouble = c :: u ∧ LineStart c := by
  cases node with
  | comparison column op value =>
    obtain ⟨c, cs, hcs, hdigit⟩ := decimal_head column
    refine ⟨c, cs ++ ascii " " ++ op.toText ++ ascii " " ++
      Comparison.valueToString formatDouble op value, ?_, .inr hdigit⟩
    simp [text, Comparison.prettyPrint, hcs, spaces]
  | _ => exact ⟨91, _, rfl, .inl rfl⟩

theorem text_comparison (column : Nat) (op : Op) (value : Literal) :
    (comparison column op value).text formatDouble =
      decimal column ++ space :: (op.toText ++ space ::
        Comparison.valueToString formatDouble op value) := by
  simp [text, Comparison.prettyPrint, spaces, show ascii " " = [space] from rfl]

theorem not_mem_decimal {c : UInt8} (hc : ¬ (48 ≤ c ∧ c ≤ 57)) (n : Nat) : c ∉ decimal n :=
  fun h => hc (mem_decimal h)

theorem not_mem_decimalInt {c : UInt8} (hc : ¬ (48 ≤ c ∧ c ≤ 57)) (hminus : c ≠ 45) (v : Int) :
    c ∉ decimalInt v := by
  have hdigits := not_mem_decimal hc v.natAbs
  unfold decimalInt
  split
  · rw [List.mem_append, not_or]
    exact ⟨fun h => hminus (List.mem_singleton.mp h), hdigits⟩
  · exact hdigits

theorem text_of_prints {node : Node} {s : List UInt8} (h : node.Prints s) :
    ∃ pre, node.text formatDouble = pre ++ singleQuote :: (s ++ [singleQuote]) ∧ singleQuote ∉ pre ∧
      newline ∉ pre := by
  obtain ⟨column, op, rfl, hop, hop'⟩ := h
  refine ⟨decimal column ++ space :: (op.toText ++ [space]), ?_, ?_, ?_⟩
  · simp [text_comparison, Comparison.valueToString, hop, hop']
  · have := not_mem_decimal (c := singleQuote) (by decide) column
    cases op <;> simp +decide [this]
  · have := not_mem_decimal (c := newline) (by decide) column
    cases op <;> simp +decide [this]

theorem newline_not_mem {node : Node} (h : node.IntOrString) (hnone : ∀ s, ¬ node.Prints s) :
    newline ∉ node.text formatDouble := by
  cases node with
  | comparison column op value =>
    have hcol := not_mem_decimal (c := newline) (by decide) column
    have hvalue : newline ∉ Comparison.valueToString formatDouble op value := by
      unfold Comparison.valueToString
      split
      · simp
      · next hop =>
        rw [not_or] at hop
        rcases h with ⟨v, rfl⟩ | ⟨s, rfl⟩
        · exact not_mem_decimalInt (by decide) (by decide) v.toInt
        · exact absurd ⟨column, op, rfl, hop⟩ (hnone s)
    rw [text_comparison]
    cases op <;> simp +decide [hcol, hvalue]
  | and => exact (by decide : newline ∉ ascii "[AND]")
  | or => exact (by decide : newline ∉ ascii "[OR]")
  | not => exact (by decide : newline ∉ ascii "[NOT]")

end Node

/-- A line below the first of a filter whose literals are integers and strings. -/
structure Line.Child (x : Line) : Prop where
  indent : 2 ≤ x.indent
  literal : x.node.IntOrString

namespace Line

variable {formatDouble : UInt64 → List UInt8}

theorem newline_not_mem {x : Line} (h : x.node.IntOrString) (hnone : ∀ s, ¬ x.node.Prints s) :
    newline ∉ x.text formatDouble := by
  unfold text
  rw [List.mem_append, not_or]
  exact ⟨fun h => absurd (List.eq_of_mem_replicate h) (by decide), Node.newline_not_mem h hnone⟩

theorem text_of_prints {x : Line} {s : List UInt8} (h : x.node.Prints s) :
    ∃ pre, x.text formatDouble = pre ++ singleQuote :: (s ++ [singleQuote]) ∧ singleQuote ∉ pre ∧
      newline ∉ pre := by
  obtain ⟨pre, htext, hq, hn⟩ := @Node.text_of_prints formatDouble _ _ h
  refine ⟨spaces x.indent ++ pre, by rw [text, htext, List.append_assoc], ?_, ?_⟩
  · rw [List.mem_append, not_or]
    exact ⟨fun h => absurd (List.eq_of_mem_replicate h) (by decide), hq⟩
  · rw [List.mem_append, not_or]
    exact ⟨fun h => absurd (List.eq_of_mem_replicate h) (by decide), hn⟩

end Line

section Reading

variable {formatDouble : UInt64 → List UInt8}

theorem rest_block {xs : List Line} (h : ∀ x ∈ xs, x.Child) : Rest (block formatDouble xs) := by
  cases xs with
  | nil => exact .inl rfl
  | cons x xs =>
    obtain ⟨c, u, hu, hc⟩ := @Node.text_start formatDouble x.node
    refine .inr ⟨x.indent, c, u ++ block formatDouble xs, ?_, (h x (by simp)).indent, hc⟩
    rw [block_cons, Line.text, hu]
    simp

/-- Where a string literal of another reading ends, a line ends, unless a literal imitates one. -/
theorem string_end {xs : List Line} (hxs : ∀ x ∈ xs, x.Child)
    (hclear : ∀ x ∈ xs, ∀ s, x.node.Prints s → ¬ Imitates s) {t r : List UInt8} (hr : Rest r)
    (h : block formatDouble xs = newline :: (t ++ [singleQuote]) ++ r) :
    ∃ xs₁ xs₂, xs = xs₁ ++ xs₂ ∧ block formatDouble xs₁ = newline :: (t ++ [singleQuote]) ∧
      block formatDouble xs₂ = r := by
  induction xs generalizing t with
  | nil => simp [block] at h
  | cons x xs ih =>
    have htail : ∀ y ∈ xs, y.Child := fun y hy => hxs y (List.mem_cons_of_mem _ hy)
    rw [block_cons, List.cons_append] at h
    rcases List.append_eq_append_iff.mp (List.cons.inj h).2 with ⟨u, hu, hrest⟩ | ⟨v, hv, hrest⟩
    · -- The literal ends with the line or after it.
      rcases List.eq_nil_or_concat' u with rfl | ⟨u', q, rfl⟩
      · refine ⟨[x], xs, rfl, ?_, by simpa using hrest⟩
        rw [block_cons, hu]
        simp [block]
      · obtain ⟨hu', hq⟩ : t = x.text formatDouble ++ u' ∧ singleQuote = q := by
          rw [← List.append_assoc] at hu
          exact ⟨(List.append_inj' hu rfl).1, by simpa using (List.append_inj' hu rfl).2⟩
        subst hq
        cases u' with
        | nil =>
          -- A line begins with a newline, not with a quote.
          rcases (rest_block htail).newline with hnil | ⟨b, hb⟩
          · rw [hnil] at hrest
            simp at hrest
          · rw [hb] at hrest
            exact absurd (List.cons.inj hrest).1 (by decide)
        | cons c u' =>
          have hblock : block formatDouble xs ≠ [] := by
            rw [hrest]
            simp
          obtain ⟨b, hb⟩ := (rest_block htail).newline.resolve_left hblock
          have hc : newline = c := by
            rw [hb] at hrest
            exact (List.cons.inj hrest).1
          subst hc
          obtain ⟨xs₁, xs₂, rfl, h₁, h₂⟩ := ih htail
            (fun y hy => hclear y (List.mem_cons_of_mem _ hy)) hrest
          refine ⟨x :: xs₁, xs₂, rfl, ?_, h₂⟩
          rw [block_cons, h₁, hu']
          simp
    · -- The literal ends inside the line, before a newline: the line is that of a string.
      by_cases hv' : v = []
      · subst hv'
        refine ⟨[x], xs, rfl, ?_, by simpa using hrest.symm⟩
        rw [block_cons, hv]
        simp [block]
      · have hmem : newline ∈ x.text formatDouble := by
          have hne : r ≠ [] := by
            rw [hrest]
            simp [hv']
          obtain ⟨r', hr'⟩ := hr.newline.resolve_left hne
          obtain ⟨c, v'', rfl⟩ := List.exists_cons_of_ne_nil hv'
          have hc : newline = c := by
            rw [hr'] at hrest
            exact (List.cons.inj hrest).1
          rw [hv, hc]
          simp
        by_cases hprints : ∃ s, x.node.Prints s
        · obtain ⟨s, hs⟩ := hprints
          obtain ⟨pre, htext, hq, -⟩ := @Line.text_of_prints formatDouble _ _ hs
          have hcut : pre ++ singleQuote :: (s ++ [singleQuote]) = t ++ singleQuote :: v := by
            rw [← htext, hv]
            simp
          exact absurd (imitates_of_cut hq hcut hv' hrest.symm hr) (hclear x (by simp) s hs)
        · exact absurd hmem
            (Line.newline_not_mem (hxs x (by simp)).literal (not_exists.mp hprints))

/-- The indentation of a line can be read off. -/
theorem indent_cancel {x y : Line} {t r : List UInt8}
    (h : x.text formatDouble ++ t = y.text formatDouble ++ r) :
    x.indent = y.indent ∧ x.node.text formatDouble ++ t = y.node.text formatDouble ++ r := by
  obtain ⟨c, u, hu, hc⟩ := @Node.text_start formatDouble x.node
  obtain ⟨c', u', hu', hc'⟩ := @Node.text_start formatDouble y.node
  rw [Line.text, Line.text, hu, hu', List.append_assoc, List.append_assoc] at h
  obtain ⟨hindent, rfl, hrest⟩ := spaces_cancel hc.ne.1 hc'.ne.1 h
  refine ⟨hindent, ?_⟩
  rw [hu, hu']
  exact congrArg (List.cons c) hrest

/-- So can the column and the operator of a comparison. -/
theorem comparison_cancel {column column' : Nat} {op op' : Op} {value value' : Literal}
    {t r : List UInt8}
    (h : (Node.comparison column op value).text formatDouble ++ t =
      (Node.comparison column' op' value').text formatDouble ++ r) :
    column = column' ∧ op = op' ∧ Comparison.valueToString formatDouble op value ++ t =
      Comparison.valueToString formatDouble op' value' ++ r := by
  have hspace : ∀ n, space ∉ decimal n := Node.not_mem_decimal (by decide)
  rw [Node.text_comparison, Node.text_comparison] at h
  simp only [List.append_assoc, List.cons_append] at h
  obtain ⟨hcolumn, hrest⟩ := cut_cancel (hspace _) (hspace _) (.inr ⟨_, rfl⟩) (.inr ⟨_, rfl⟩) h
  obtain ⟨hop, hvalue⟩ := toText_cancel (List.cons.inj hrest).2
  exact ⟨decimal_inj.mp hcolumn, hop, hvalue⟩

theorem decimalInt_ne_quote (v : Int) (s t r : List UInt8) :
    singleQuote :: s ++ t ≠ decimalInt v ++ r := by
  intro h
  obtain ⟨c, cs, hcs, hdigit⟩ := decimal_head v.natAbs
  have hc : c ≠ singleQuote := by
    rintro rfl
    exact absurd hdigit (by decide)
  unfold decimalInt at h
  rw [hcs] at h
  split at h
  · exact absurd (List.cons.inj h).1 (by decide)
  · exact hc (List.cons.inj h).1.symm

/-- A comparison with a string has a quote where no other line has one. -/
theorem prints_of_text {node node' : Node} {s t r : List UInt8} (hs : node.Prints s)
    (hnode : node'.IntOrString)
    (h : node.text formatDouble ++ t = node'.text formatDouble ++ r) : ∃ s', node'.Prints s' := by
  obtain ⟨column, op, rfl, hop, hop'⟩ := hs
  cases node' with
  | comparison column' op' value' =>
    obtain ⟨-, rfl, hvalue⟩ := comparison_cancel h
    rcases hnode with ⟨v, rfl⟩ | ⟨s', rfl⟩
    · simp only [Comparison.valueToString, hop, hop', or_self, if_false] at hvalue
      exact absurd hvalue (decimalInt_ne_quote v.toInt _ _ _)
    · exact ⟨s', column', op, rfl, hop, hop'⟩
  | _ =>
    obtain ⟨c, cs, hcs, hdigit⟩ := decimal_head column
    have hc : (91 : UInt8) ≠ c := by
      rintro rfl
      exact absurd hdigit (by decide)
    rw [Node.text_comparison, hcs] at h
    exact absurd (List.cons.inj h).1.symm hc

/-- A line without a string reads the same in every reading. -/
theorem line_end {x y : Line} {t r : List UInt8} (hx : x.node.IntOrString)
    (hy : y.node.IntOrString) (hnone : ∀ s, ¬ y.node.Prints s)
    (ht : t = [] ∨ ∃ t', t = newline :: t') (hr : r = [] ∨ ∃ r', r = newline :: r')
    (h : x.text formatDouble ++ t = y.text formatDouble ++ r) :
    x.text formatDouble = y.text formatDouble ∧ t = r := by
  by_cases hprints : ∃ s, x.node.Prints s
  · obtain ⟨s, hs⟩ := hprints
    obtain ⟨s', hs'⟩ := prints_of_text hs hy (indent_cancel h).2
    exact absurd hs' (hnone s')
  · exact cut_cancel (Line.newline_not_mem hx (not_exists.mp hprints))
      (Line.newline_not_mem hy hnone) ht hr h

/-- Where a line of another reading ends, a line ends, unless a literal imitates one. -/
theorem exists_lines {xs : List Line} (hxs : ∀ x ∈ xs, x.Child)
    (hclear : ∀ x ∈ xs, ∀ s, x.node.Prints s → ¬ Imitates s) {y : Line} (hy : y.Child)
    {r : List UInt8} (hr : Rest r)
    (h : block formatDouble xs = newline :: y.text formatDouble ++ r) :
    ∃ xs₁ xs₂, xs = xs₁ ++ xs₂ ∧ block formatDouble xs₁ = newline :: y.text formatDouble ∧
      block formatDouble xs₂ = r := by
  by_cases hprints : ∃ s, y.node.Prints s
  · obtain ⟨s, hs⟩ := hprints
    obtain ⟨pre, htext, -⟩ := @Line.text_of_prints formatDouble _ _ hs
    have hend : y.text formatDouble = pre ++ singleQuote :: s ++ [singleQuote] := by
      rw [htext]
      simp
    rw [hend] at h ⊢
    exact string_end hxs hclear hr h
  · cases xs with
    | nil => simp [block] at h
    | cons x xs =>
      have htail : ∀ y ∈ xs, y.Child := fun y hy => hxs y (List.mem_cons_of_mem _ hy)
      rw [block_cons, List.cons_append] at h
      obtain ⟨htext, hrest⟩ := line_end (hxs x (by simp)).literal hy.literal
        (not_exists.mp hprints) (rest_block htail).newline hr.newline (List.cons.inj h).2
      refine ⟨[x], xs, rfl, ?_, hrest⟩
      rw [block_cons, htext]
      simp [block]

/-- The text of two filters one after the other, read as the lines `xs`. -/
theorem exists_block {xs ys zs : List Line} (hxs : ∀ x ∈ xs, x.Child)
    (hclear : ∀ x ∈ xs, ∀ s, x.node.Prints s → ¬ Imitates s) (hys : ∀ y ∈ ys, y.Child)
    (hzs : ∀ z ∈ zs, z.Child)
    (h : block formatDouble xs = block formatDouble ys ++ block formatDouble zs) :
    ∃ xs₁ xs₂, xs = xs₁ ++ xs₂ ∧ block formatDouble xs₁ = block formatDouble ys ∧
      block formatDouble xs₂ = block formatDouble zs := by
  induction ys generalizing xs with
  | nil => exact ⟨[], xs, rfl, rfl, h⟩
  | cons y ys ih =>
    have hrest : ∀ z ∈ ys ++ zs, z.Child := fun z hz =>
      (List.mem_append.mp hz).elim (fun hz => hys z (List.mem_cons_of_mem _ hz)) (hzs z)
    rw [block_cons, List.cons_append, List.append_assoc, ← block_append, ← List.cons_append] at h
    obtain ⟨xs₁, xs₂, rfl, h₁, h₂⟩ :=
      exists_lines hxs hclear (hys y (by simp)) (rest_block hrest) h
    rw [block_append] at h₂
    obtain ⟨xs₂, xs₃, rfl, h₂', h₃⟩ := ih (fun x hx => hxs x (List.mem_append_right _ hx))
      (fun x hx => hclear x (List.mem_append_right _ hx))
      (fun z hz => hys z (List.mem_cons_of_mem _ hz)) h₂
    refine ⟨xs₁ ++ xs₂, xs₃, by rw [List.append_assoc], ?_, h₃⟩
    rw [block_append, h₁, h₂', block_cons]
    simp

/-- Two lines of one text are the same header, or two comparisons. -/
theorem header_cancel {node node' : Node} {t r : List UInt8}
    (h : node.text formatDouble ++ t = node'.text formatDouble ++ r) :
    (node = node' ∧ t = r ∧ ∀ column op value, node ≠ .comparison column op value) ∨
      ∃ column op value column' op' value', node = .comparison column op value ∧
        node' = .comparison column' op' value' := by
  have hdigit : ∀ column op value u v, (Node.comparison column op value).text formatDouble ++ u ≠
      91 :: v := fun column op value u v hcut => by
    obtain ⟨c, cs, hcs, hdigit⟩ := decimal_head column
    rw [Node.text_comparison, hcs] at hcut
    have hc : c = 91 := (List.cons.inj hcut).1
    rw [hc] at hdigit
    exact absurd hdigit (by decide)
  cases node with
  | comparison column op value =>
    cases node' with
    | comparison column' op' value' =>
      exact .inr ⟨column, op, value, column', op', value', rfl, rfl⟩
    | _ => exact absurd h (hdigit _ _ _ _ _)
  | _ =>
    cases node' with
    | comparison column' op' value' => exact absurd h.symm (hdigit _ _ _ _ _)
    | _ => simp +decide [Node.text, ascii] at h ⊢ <;> exact h

end Reading

/-! ## Reading a filter -/

namespace Statement

theorem le_indent (stmt : Statement) (indent : Nat) :
    ∀ x ∈ stmt.lines indent, indent ≤ x.indent := by
  induction stmt generalizing indent with
  | comparison column op value => simp [lines]
  | and l r ihl ihr | or l r ihl ihr =>
    intro x hx
    rcases List.mem_cons.mp hx with rfl | hx
    · exact le_rfl
    · rcases List.mem_append.mp hx with hx | hx
      · exact le_trans (by omega) (ihl _ x hx)
      · exact le_trans (by omega) (ihr _ x hx)
  | not child ih =>
    intro x hx
    rcases List.mem_cons.mp hx with rfl | hx
    · exact le_rfl
    · exact le_trans (by omega) (ih _ x hx)

/-- Only the first line of a filter has its indentation. -/
theorem lines_eq_cons (stmt : Statement) (indent : Nat) :
    ∃ x xs, stmt.lines indent = x :: xs ∧ x.indent = indent ∧ ∀ y ∈ xs, indent < y.indent := by
  cases stmt with
  | comparison column op value => exact ⟨_, [], rfl, rfl, by simp⟩
  | and l r | or l r =>
    refine ⟨_, _, rfl, rfl, fun y hy => ?_⟩
    rcases List.mem_append.mp hy with hy | hy
    · exact lt_of_lt_of_le (by omega) (le_indent l _ y hy)
    · exact lt_of_lt_of_le (by omega) (le_indent r _ y hy)
  | not child =>
    exact ⟨_, _, rfl, rfl, fun y hy => lt_of_lt_of_le (by omega) (le_indent child _ y hy)⟩

theorem IntOrString.lines {stmt : Statement} (h : stmt.IntOrString) (indent : Nat) :
    ∀ x ∈ stmt.lines indent, x.node.IntOrString := by
  induction stmt generalizing indent with
  | comparison column op value =>
    intro x hx
    rw [List.mem_singleton.mp hx]
    exact h
  | and l r ihl ihr | or l r ihl ihr =>
    intro x hx
    rcases List.mem_cons.mp hx with rfl | hx
    · trivial
    · exact (List.mem_append.mp hx).elim (ihl h.1 _ x) (ihr h.2 _ x)
  | not child ih =>
    intro x hx
    rcases List.mem_cons.mp hx with rfl | hx
    · trivial
    · exact ih h _ x hx

theorem Imitating.of_line {stmt : Statement} {indent : Nat} {x : Line} (hx : x ∈ stmt.lines indent)
    {s : List UInt8} (hs : x.node.Prints s) (himitates : Imitates s) : stmt.Imitating := by
  obtain ⟨column, op, hnode, hprints⟩ := hs
  induction stmt generalizing indent with
  | comparison column' op' value =>
    rw [List.mem_singleton.mp hx] at hnode
    obtain ⟨-, rfl, hvalue⟩ := Node.comparison.inj hnode
    exact ⟨hprints, s, hvalue, himitates⟩
  | and l r ihl ihr | or l r ihl ihr =>
    rcases List.mem_cons.mp hx with rfl | hx
    · simp at hnode
    · exact (List.mem_append.mp hx).imp ihl ihr
  | not child ih =>
    rcases List.mem_cons.mp hx with rfl | hx
    · simp at hnode
    · exact ih hx

/-- The lines of two filters of one indentation can be cut apart in one place only. -/
theorem lines_append_eq {l r : Statement} {indent : Nat} {xs ys : List Line} {y : Line}
    (h : l.lines indent ++ r.lines indent = xs ++ y :: ys) (hxs : xs ≠ [])
    (hy : y.indent = indent) : xs = l.lines indent ∧ y :: ys = r.lines indent := by
  rcases List.append_eq_append_iff.mp h with ⟨zs, rfl, hr⟩ | ⟨zs, hl, hr⟩
  · cases zs with
    | nil => exact ⟨by simp, by simpa using hr.symm⟩
    | cons z zs =>
      obtain ⟨x, tail, htail, -, hlt⟩ := r.lines_eq_cons indent
      rw [htail] at hr
      have := hlt y ((List.cons.inj hr).2 ▸ by simp)
      omega
  · cases zs with
    | nil => exact ⟨by simpa using hl.symm, hr⟩
    | cons z zs =>
      obtain ⟨x, tail, htail, -, hlt⟩ := l.lines_eq_cons indent
      obtain ⟨x', xs', rfl⟩ := List.exists_cons_of_ne_nil hxs
      have hz : y = z := (List.cons.inj hr).1
      rw [htail] at hl
      have := hlt y ((List.cons.inj hl).2 ▸ by simp [hz])
      omega

section Reading

variable {formatDouble : UInt64 → List UInt8}

theorem IntOrString.child {stmt : Statement} (h : stmt.IntOrString) {indent : Nat} :
    ∀ x ∈ stmt.lines (indent + 2), x.Child := fun x hx =>
  ⟨le_trans (by omega) (stmt.le_indent _ x hx), h.lines _ x hx⟩

/-- Two operands are read off the text of a line with two operands. -/
theorem operands_cancel {l r l' r' : Statement} {indent : Nat} (hl : l.IntOrString)
    (hr : r.IntOrString) (hl' : l'.IntOrString) (hr' : r'.IntOrString) (hclear : ¬ l.Imitating)
    (hclear' : ¬ r.Imitating)
    (h : block formatDouble (l.lines (indent + 2) ++ r.lines (indent + 2)) =
      block formatDouble (l'.lines (indent + 2) ++ r'.lines (indent + 2))) :
    block formatDouble (l.lines (indent + 2)) = block formatDouble (l'.lines (indent + 2)) ∧
      block formatDouble (r.lines (indent + 2)) = block formatDouble (r'.lines (indent + 2)) := by
  have hxs : ∀ x ∈ l.lines (indent + 2) ++ r.lines (indent + 2), x.Child := fun x hx =>
    (List.mem_append.mp hx).elim (hl.child x) (hr.child x)
  have hclearxs : ∀ x ∈ l.lines (indent + 2) ++ r.lines (indent + 2), ∀ s, x.node.Prints s →
      ¬ Imitates s := fun x hx s hs himitates =>
    (List.mem_append.mp hx).elim (fun hx => hclear (.of_line hx hs himitates))
      fun hx => hclear' (.of_line hx hs himitates)
  rw [block_append formatDouble (l'.lines (indent + 2))] at h
  obtain ⟨xs, ys, hsplit, hx, hy⟩ := exists_block hxs hclearxs hl'.child hr'.child h
  obtain ⟨y', tail', htail', hindent', -⟩ := r'.lines_eq_cons (indent + 2)
  have hxsne : xs ≠ [] := by
    rintro rfl
    obtain ⟨x', tail, htail, -⟩ := l'.lines_eq_cons (indent + 2)
    rw [htail] at hx
    exact absurd hx.symm (block_ne_nil formatDouble (List.cons_ne_nil _ _))
  cases ys with
  | nil =>
    rw [htail'] at hy
    exact absurd hy.symm (block_ne_nil formatDouble (List.cons_ne_nil _ _))
  | cons y ys =>
    have hindent : y.indent = indent + 2 := by
      rw [htail', block_cons, block_cons] at hy
      exact (indent_cancel (List.cons.inj hy).2).1.trans hindent'
    obtain ⟨rfl, hys⟩ := lines_append_eq hsplit hxsne hindent
    rw [hys] at hy
    exact ⟨hx, hy⟩

/-- Equal values in the text are equal literals. -/
theorem literal_cancel {op : Op} (hop : op.PrintsLiteral) {value value' : Literal}
    (h : (∃ v, value = .int64 v) ∨ ∃ s, value = .varchar s)
    (h' : (∃ v, value' = .int64 v) ∨ ∃ s, value' = .varchar s)
    (heq : Comparison.valueToString formatDouble op value =
      Comparison.valueToString formatDouble op value') : value = value' := by
  simp only [Comparison.valueToString, if_neg (not_or.mpr hop)] at heq
  rcases h with ⟨v, rfl⟩ | ⟨s, rfl⟩ <;> rcases h' with ⟨v', rfl⟩ | ⟨s', rfl⟩
  · rw [Int64.toInt_inj.mp (decimalInt_inj.mp heq)]
  · exact absurd (show singleQuote :: s' ++ [singleQuote] = decimalInt v.toInt ++ [] by
      simpa using heq.symm) (decimalInt_ne_quote _ _ _ _)
  · exact absurd (show singleQuote :: s ++ [singleQuote] = decimalInt v'.toInt ++ [] by
      simpa using heq) (decimalInt_ne_quote _ _ _ _)
  · simp only [List.cons_append, List.nil_append] at heq
    rw [List.append_cancel_right (List.cons.inj heq).2]

/-- Filters of one text have the same first line, or are two comparisons. -/
theorem first_line {a b : Statement} {indent : Nat}
    (h : block formatDouble (a.lines indent) = block formatDouble (b.lines indent)) :
    (a.node = b.node ∧
      block formatDouble (a.lowerLines indent) = block formatDouble (b.lowerLines indent) ∧
      ∀ column op value, a.node ≠ .comparison column op value) ∨
      ∃ column op value column' op' value', a.node = .comparison column op value ∧
        b.node = .comparison column' op' value' := by
  rw [lines_eq, lines_eq, block_cons, block_cons] at h
  exact header_cancel (indent_cancel (List.cons.inj h).2).2

/-- Filters of one text, the first without a literal that imitates a line, are the same. -/
theorem same_of_block {a b : Statement} (ha : a.IntOrString) (hb : b.IntOrString)
    (hclear : ¬ a.Imitating) {indent : Nat}
    (h : block formatDouble (a.lines indent) = block formatDouble (b.lines indent)) :
    a.Same b := by
  induction a generalizing b indent with
  | comparison column op value =>
    rcases first_line h with ⟨-, -, hne⟩ | ⟨_, _, _, column', op', value', -, hnode⟩
    · exact absurd rfl (hne column op value)
    · obtain rfl : b = comparison column' op' value' := by
        cases b <;> first | cases hnode; rfl | cases hnode
      obtain ⟨rfl, rfl, hvalue⟩ := comparison_cancel (indent_cancel (List.cons.inj h).2).2
      exact ⟨rfl, rfl, fun hop => literal_cancel hop ha hb (List.append_cancel_right hvalue)⟩
  | and l r ihl ihr =>
    rcases first_line h with ⟨hnode, hrest, -⟩ | ⟨_, _, _, _, _, _, hnode, -⟩
    · obtain ⟨l', r', rfl⟩ : ∃ l' r', b = and l' r' := by
        cases b <;> first | exact ⟨_, _, rfl⟩ | cases hnode
      rw [Imitating, not_or] at hclear
      obtain ⟨hl, hr⟩ := operands_cancel ha.1 ha.2 hb.1 hb.2 hclear.1 hclear.2 hrest
      exact ⟨ihl ha.1 hb.1 hclear.1 hl, ihr ha.2 hb.2 hclear.2 hr⟩
    · cases hnode
  | or l r ihl ihr =>
    rcases first_line h with ⟨hnode, hrest, -⟩ | ⟨_, _, _, _, _, _, hnode, -⟩
    · obtain ⟨l', r', rfl⟩ : ∃ l' r', b = or l' r' := by
        cases b <;> first | exact ⟨_, _, rfl⟩ | cases hnode
      rw [Imitating, not_or] at hclear
      obtain ⟨hl, hr⟩ := operands_cancel ha.1 ha.2 hb.1 hb.2 hclear.1 hclear.2 hrest
      exact ⟨ihl ha.1 hb.1 hclear.1 hl, ihr ha.2 hb.2 hclear.2 hr⟩
    · cases hnode
  | not child ih =>
    rcases first_line h with ⟨hnode, hrest, -⟩ | ⟨_, _, _, _, _, _, hnode, -⟩
    · obtain ⟨child', rfl⟩ : ∃ child', b = not child' := by
        cases b <;> first | exact ⟨_, rfl⟩ | cases hnode
      exact ih ha hb hclear hrest
    · cases hnode

end Reading

/-! ## Same filters -/

theorem Same.symm {a b : Statement} (h : a.Same b) : b.Same a := by
  induction a generalizing b with
  | comparison column op value =>
    cases b with
    | comparison column' op' value' =>
      obtain ⟨rfl, rfl, hvalue⟩ := h
      exact ⟨rfl, rfl, fun hop => (hvalue hop).symm⟩
    | _ => exact h.elim
  | and l r ihl ihr =>
    cases b with
    | and l' r' => exact ⟨ihl h.1, ihr h.2⟩
    | _ => exact h.elim
  | or l r ihl ihr =>
    cases b with
    | or l' r' => exact ⟨ihl h.1, ihr h.2⟩
    | _ => exact h.elim
  | not child ih =>
    cases b with
    | not child' => exact ih h
    | _ => exact h.elim

/-- A literal that is not printed is not looked at either. -/
theorem Same.eval {a b : Statement} (h : a.Same b) (likeMatch : List UInt8 → List UInt8 → Bool)
    (record : List Data) : a.eval likeMatch record = b.eval likeMatch record := by
  induction a generalizing b with
  | comparison column op value =>
    cases b with
    | comparison column' op' value' =>
      obtain ⟨rfl, rfl, hvalue⟩ := h
      by_cases hop : op.PrintsLiteral
      · rw [hvalue hop]
      · rw [Op.PrintsLiteral, not_and_or, not_not, not_not] at hop
        rcases hop with rfl | rfl <;> rfl
    | _ => exact h.elim
  | and l r ihl ihr =>
    cases b with
    | and l' r' => simp only [Statement.eval, ihl h.1, ihr h.2]
    | _ => exact h.elim
  | or l r ihl ihr =>
    cases b with
    | or l' r' => simp only [Statement.eval, ihl h.1, ihr h.2]
    | _ => exact h.elim
  | not child ih =>
    cases b with
    | not child' => simp only [Statement.eval, ih h]
    | _ => exact h.elim

end Statement

/-! ## Filters of one text -/

section Recuts

variable {formatDouble : UInt64 → List UInt8}

theorem Line.Quotes.text {x : Line} {head s : List UInt8} (h : x.Quotes head s) :
    x.text formatDouble = head ++ singleQuote :: (s ++ [singleQuote]) := by
  obtain ⟨column, op, hnode, ⟨hop, hop'⟩, rfl⟩ := h
  simp [Line.text, hnode, Node.text_comparison, comparisonHead, Comparison.valueToString, hop, hop']

theorem Line.Quotes.quote_not_mem {x : Line} {head s : List UInt8} (h : x.Quotes head s) :
    singleQuote ∉ head := by
  obtain ⟨column, op, -, -, rfl⟩ := h
  have hspaces : singleQuote ∉ spaces x.indent := fun h =>
    absurd (List.eq_of_mem_replicate h) (by decide)
  have hcolumn := Node.not_mem_decimal (c := singleQuote) (by decide) column
  cases op <;> simp +decide [comparisonHead, hspaces, hcolumn]

/-- A line with a quote in its text has a string literal. -/
theorem Line.exists_quotes {x : Line} (h : x.node.IntOrString)
    (hquote : singleQuote ∈ x.text formatDouble) : ∃ head s, x.Quotes head s := by
  have hspaces : singleQuote ∉ spaces x.indent := fun h =>
    absurd (List.eq_of_mem_replicate h) (by decide)
  have hquote := (List.mem_append.mp hquote).resolve_left hspaces
  cases hnode : x.node with
  | comparison column op value =>
    rw [hnode] at h hquote
    have hcolumn := Node.not_mem_decimal (c := singleQuote) (by decide) column
    have hop : singleQuote ∉ op.toText := by cases op <;> decide
    have hvalue : singleQuote ∈ Comparison.valueToString formatDouble op value := by
      simpa +decide [Node.text_comparison, hcolumn, hop] using hquote
    by_cases hprints : op = .isNull ∨ op = .isNotNull
    · simp [Comparison.valueToString, hprints] at hvalue
    · simp only [Comparison.valueToString, if_neg hprints] at hvalue
      rw [not_or] at hprints
      rcases h with ⟨v, rfl⟩ | ⟨s, rfl⟩
      · exact absurd hvalue (Node.not_mem_decimalInt (by decide) (by decide) v.toInt)
      · exact ⟨_, s, column, op, hnode, hprints, rfl⟩
  | and =>
    rw [hnode] at hquote
    exact absurd hquote (by decide : singleQuote ∉ ascii "[AND]")
  | or =>
    rw [hnode] at hquote
    exact absurd hquote (by decide : singleQuote ∉ ascii "[OR]")
  | not =>
    rw [hnode] at hquote
    exact absurd hquote (by decide : singleQuote ∉ ascii "[NOT]")

theorem Line.Same.text {x y : Line} (h : x.Same y) : x.text formatDouble = y.text formatDouble := by
  obtain ⟨hindent, hnode | ⟨column, op, value, value', hx, hy, hop⟩⟩ := h
  · rw [Line.text, Line.text, hindent, hnode]
  · have hop : op = .isNull ∨ op = .isNotNull := by
      rwa [Op.PrintsLiteral, not_and_or, not_not, not_not] at hop
    simp only [Line.text, hindent, hx, hy, Node.text_comparison, Comparison.valueToString,
      if_pos hop]

/-- Cuts of one text have one text. -/
theorem Recuts.block_eq {rest : Option (List UInt8)} {xs ys : List Line}
    (h : Recuts formatDouble rest xs ys) : block formatDouble xs =
      (rest.elim [] fun rest => rest ++ [singleQuote]) ++ block formatDouble ys := by
  induction h with
  | nil => rfl
  | same hsame _ ih => rw [block_cons, block_cons, hsame.text, ih]; rfl
  | longer hx hy _ ih => simp [block_cons, hx.text, hy.text, ih]
  | shorter hx hy _ ih => simp [block_cons, hx.text, hy.text, ih]
  | line _ ih => simp [block_cons, ih]
  | together hx _ ih => simp [block_cons, hx.text, ih]
  | @turn x xs ys head s u rest hx hcut _ ih =>
    have hcut : singleQuote :: (s ++ [singleQuote]) =
        u ++ singleQuote :: (rest ++ [singleQuote]) := by
      rw [← List.cons_append, hcut]
      simp
    simp [block_cons, hx.text, ih, hcut]

/-- Two lines that begin texts which are equal: the same, up to a literal that is not printed, or
two comparisons with strings of which one may go on. -/
theorem line_cases {x y : Line} (hx : x.node.IntOrString) (hy : y.node.IntOrString)
    {t r : List UInt8} (ht : t = [] ∨ ∃ t', t = newline :: t')
    (hr : r = [] ∨ ∃ r', r = newline :: r')
    (h : x.text formatDouble ++ t = y.text formatDouble ++ r) :
    x.Same y ∧ t = r ∨ ∃ head s s', x.Quotes head s ∧ y.Quotes head s' ∧ s ≠ s' ∧
      s ++ singleQuote :: t = s' ++ singleQuote :: r := by
  obtain ⟨hindent, hnode⟩ := indent_cancel h
  rcases header_cancel hnode with ⟨hsame, hrest, -⟩ |
    ⟨column, op, value, column', op', value', hxnode, hynode⟩
  · exact .inl ⟨⟨hindent, .inl hsame⟩, hrest⟩
  · rw [hxnode, hynode] at hnode
    obtain ⟨rfl, rfl, hvalue⟩ := comparison_cancel hnode
    by_cases hop : op.PrintsLiteral
    · rw [hxnode] at hx
      rw [hynode] at hy
      simp only [Comparison.valueToString, if_neg (not_or.mpr hop)] at hvalue
      rcases hx with ⟨v, rfl⟩ | ⟨s, rfl⟩ <;> rcases hy with ⟨v', rfl⟩ | ⟨s', rfl⟩
      · have hnone := Node.not_mem_decimalInt (c := newline) (by decide) (by decide)
        obtain ⟨hv, hrest⟩ := cut_cancel (hnone v.toInt) (hnone v'.toInt) ht hr hvalue
        rw [Int64.toInt_inj.mp (decimalInt_inj.mp hv)] at hxnode
        exact .inl ⟨⟨hindent, .inl (hxnode.trans hynode.symm)⟩, hrest⟩
      · exact absurd (by simpa using hvalue.symm)
          (decimalInt_ne_quote v.toInt (s' ++ [singleQuote]) r t)
      · exact absurd (by simpa using hvalue)
          (decimalInt_ne_quote v'.toInt (s ++ [singleQuote]) t r)
      · have hvalue : s ++ singleQuote :: t = s' ++ singleQuote :: r := by simpa using hvalue
        by_cases hs : s = s'
        · subst hs
          exact .inl ⟨⟨hindent, .inl (hxnode.trans hynode.symm)⟩,
            (List.cons.inj (List.append_cancel_left hvalue)).2⟩
        · exact .inr ⟨_, s, s', ⟨column, op, hxnode, hop, rfl⟩,
            ⟨column, op, hynode, hop, by rw [hindent]⟩, hs, hvalue⟩
    · have hunprinted : op = .isNull ∨ op = .isNotNull := by
        rwa [Op.PrintsLiteral, not_and_or, not_not, not_not] at hop
      simp only [Comparison.valueToString, if_pos hunprinted, List.nil_append] at hvalue
      exact .inl ⟨⟨hindent, .inr ⟨column, op, value, value', hxnode, hynode, hop⟩⟩, hvalue⟩

theorem block_newline (xs : List Line) :
    block formatDouble xs = [] ∨ ∃ t, block formatDouble xs = newline :: t := by
  cases xs with
  | nil => exact .inl rfl
  | cons x xs => exact .inr ⟨_, block_cons formatDouble x xs⟩

/-- The quote that ends the rest of a literal is in a line or behind it. -/
theorem rest_cases {x : Line} (hx : x.node.IntOrString) {rest t r : List UInt8}
    (h : newline :: (x.text formatDouble ++ t) = rest ++ singleQuote :: r) :
    (∃ rest', rest = newline :: (x.text formatDouble ++ rest') ∧ t = rest' ++ singleQuote :: r) ∨
      ∃ head s, x.Quotes head s ∧ (rest = newline :: (head ++ singleQuote :: s) ∧ r = t ∨
        ∃ u rest', rest = newline :: (head ++ u) ∧ singleQuote :: s = u ++ singleQuote :: rest' ∧
          r = rest' ++ singleQuote :: t) := by
  rw [← List.cons_append] at h
  rcases List.append_eq_append_iff.mp h with ⟨m, hrest, ht⟩ | ⟨m, hline, hr⟩
  · exact .inl ⟨m, hrest, ht⟩
  · cases m with
    | nil => exact .inl ⟨[], by simpa using hline.symm, by simpa using hr.symm⟩
    | cons q m =>
      obtain ⟨rfl, rfl⟩ := List.cons.inj hr
      -- The quote is in the line, which has a literal then.
      cases rest with
      | nil => exact absurd (List.cons.inj hline).1 (by decide)
      | cons c rest =>
        obtain ⟨hc, htext⟩ := List.cons.inj hline
        subst hc
        have htext : x.text formatDouble = rest ++ singleQuote :: m := htext
        have hquote : singleQuote ∈ x.text formatDouble := by
          rw [htext]
          simp
        obtain ⟨head, s, hs⟩ := Line.exists_quotes hx hquote
        refine .inr ⟨head, s, hs, ?_⟩
        rw [hs.text] at htext
        obtain ⟨u, rfl, hcut⟩ := exists_append_of_quote hs.quote_not_mem htext.symm
        rcases List.eq_nil_or_concat' m with rfl | ⟨rest', q, rfl⟩
        · refine .inl ⟨?_, by simp⟩
          rw [← List.cons_append] at hcut
          rw [(List.append_inj' hcut rfl).1]
        · have hcut : (singleQuote :: s) ++ [singleQuote] =
              (u ++ singleQuote :: rest') ++ [q] := by simpa using hcut
          obtain ⟨hs', hq⟩ := List.append_inj' hcut rfl
          obtain rfl : singleQuote = q := by simpa using hq
          exact .inr ⟨u, rest', rfl, hs', by simp⟩

/-- Lines of one text are cuts of it. -/
theorem recuts_of_block {xs ys : List Line} (hxs : ∀ x ∈ xs, x.node.IntOrString)
    (hys : ∀ y ∈ ys, y.node.IntOrString) {rest : Option (List UInt8)}
    (h : block formatDouble xs =
      (rest.elim [] fun rest => rest ++ [singleQuote]) ++ block formatDouble ys) :
    Recuts formatDouble rest xs ys := by
  induction hlen : xs.length + ys.length using Nat.strong_induction_on generalizing xs ys rest with
  | _ len ih =>
    cases rest with
    | none =>
      cases xs with
      | nil =>
        cases ys with
        | nil => exact .nil
        | cons y ys => exact absurd h.symm (block_ne_nil formatDouble (List.cons_ne_nil _ _))
      | cons x xs =>
        cases ys with
        | nil => exact absurd h (block_ne_nil formatDouble (List.cons_ne_nil _ _))
        | cons y ys =>
          rw [List.forall_mem_cons] at hxs hys
          have hless : xs.length + ys.length < len := by
            simp only [List.length_cons] at hlen
            omega
          have h : x.text formatDouble ++ block formatDouble xs =
              y.text formatDouble ++ block formatDouble ys := (List.cons.inj h).2
          rcases line_cases hxs.1 hys.1 (block_newline xs) (block_newline ys) h with
            ⟨hsame, hrest⟩ | ⟨head, s, s', hx, hy, hne, hcut⟩
          · exact .same hsame (ih _ hless hxs.2 hys.2 hrest rfl)
          · rcases List.append_eq_append_iff.mp hcut with ⟨m, rfl, hm⟩ | ⟨m, rfl, hm⟩
            · cases m with
              | nil => exact absurd (List.append_nil s).symm hne
              | cons q m =>
                obtain ⟨rfl, hm⟩ := List.cons.inj hm
                exact .longer hx hy (ih _ hless hxs.2 hys.2 (by simpa using hm) rfl)
            · cases m with
              | nil => exact absurd (List.append_nil s') hne
              | cons q m =>
                obtain ⟨rfl, hm⟩ := List.cons.inj hm
                exact .shorter hx hy (ih _ (by omega) hys.2 hxs.2 (by simpa using hm) rfl)
    | some rest =>
      cases xs with
      | nil => simp [block] at h
      | cons x xs =>
        rw [List.forall_mem_cons] at hxs
        have hless : xs.length + ys.length < len := by
          simp only [List.length_cons] at hlen
          omega
        have h : newline :: (x.text formatDouble ++ block formatDouble xs) =
            rest ++ singleQuote :: block formatDouble ys := by
          rw [← block_cons, h]
          simp
        rcases rest_cases hxs.1 h with ⟨rest', rfl, hrest⟩ |
          ⟨head, s, hs, ⟨rfl, hrest⟩ | ⟨u, rest', rfl, hcut, hrest⟩⟩
        · exact .line (ih _ hless hxs.2 hys (by simpa using hrest) rfl)
        · exact .together hs (ih _ hless hxs.2 hys hrest.symm rfl)
        · exact .turn hs hcut (ih _ (by omega) hys hxs.2 (by simpa using hrest) rfl)

theorem prettyPrint_eq_iff {a b : Statement} (ha : a.IntOrString) (hb : b.IntOrString) :
    a.prettyPrint formatDouble 0 = b.prettyPrint formatDouble 0 ↔
      Recuts formatDouble none (a.lines 0) (b.lines 0) := by
  rw [← (List.cons_injective (a := newline)).eq_iff, Statement.prettyPrint_eq,
    Statement.prettyPrint_eq]
  exact ⟨fun h => recuts_of_block (ha.lines 0) (hb.lines 0) h, fun h => h.block_eq⟩

/-- Both of two different cuts have a literal that imitates a line. -/
theorem Statement.Recut.imitating {a b : Statement} (h : a.Recut formatDouble b)
    (ha : a.IntOrString) (hb : b.IntOrString) : a.Imitating ∧ b.Imitating := by
  have hblock : block formatDouble (a.lines 0) = block formatDouble (b.lines 0) := h.1.block_eq
  constructor
  · by_contra hclear
    exact h.2 (Statement.same_of_block ha hb hclear hblock)
  · by_contra hclear
    exact h.2 (Statement.same_of_block hb ha hclear hblock.symm).symm

end Recuts

/-- Two filters with one printed text select the same records, unless they are different cuts of it
and there is a record that tells them apart. Different cuts have each a string literal that imitates
a line. -/
theorem prettyPrint_eval (likeMatch : List UInt8 → List UInt8 → Bool)
    (formatDouble : UInt64 → List UInt8) {a b : Statement} (ha : a.IntOrString)
    (hb : b.IntOrString) :
    ((a.prettyPrint formatDouble 0 = b.prettyPrint formatDouble 0 →
        ∀ record, a.eval likeMatch record = b.eval likeMatch record) ↔
      ¬ (a.Recut formatDouble b ∧
        ∃ record, a.eval likeMatch record ≠ b.eval likeMatch record)) ∧
    (a.Recut formatDouble b → a.Imitating ∧ b.Imitating) := by
  refine ⟨⟨?_, fun h htext record => ?_⟩, fun h => h.imitating ha hb⟩
  · rintro h ⟨hrecut, record, hne⟩
    exact hne (h ((prettyPrint_eq_iff ha hb).mpr hrecut.1) record)
  · by_cases hsame : a.Same b
    · exact hsame.eval likeMatch record
    · by_contra hne
      exact h ⟨⟨(prettyPrint_eq_iff ha hb).mp htext, hsame⟩, record, hne⟩

/-- Two filters on three strings, of which the first literal of the one and the second of the other
hold the text of a whole comparison. -/
def twoReadings : Statement × Statement :=
  (.and (.comparison 0 .eq (.varchar (ascii "a'\n  1 = 'b")))
      (.comparison 2 .eq (.varchar (ascii "c"))),
    .and (.comparison 0 .eq (.varchar (ascii "a")))
      (.comparison 1 .eq (.varchar (ascii "b'\n  2 = 'c"))))

theorem twoReadings_intOrString : twoReadings.1.IntOrString ∧ twoReadings.2.IntOrString :=
  ⟨⟨.inr ⟨_, rfl⟩, .inr ⟨_, rfl⟩⟩, ⟨.inr ⟨_, rfl⟩, .inr ⟨_, rfl⟩⟩⟩

theorem twoReadings_text : twoReadings.1.prettyPrint (fun _ => []) 0 =
    twoReadings.2.prettyPrint (fun _ => []) 0 := by
  decide +kernel

/-- The second alone is true on a record. -/
theorem twoReadings_eval :
    twoReadings.1.eval (fun _ _ => false)
        [.varchar (ascii "a"), .varchar (ascii "b'\n  2 = 'c"), .null] ≠
      twoReadings.2.eval (fun _ _ => false)
        [.varchar (ascii "a"), .varchar (ascii "b'\n  2 = 'c"), .null] := by
  decide +kernel

/-- They are different cuts of one text. -/
theorem prettyPrint_eval_twoReadings :
    twoReadings.1.Recut (fun _ => []) twoReadings.2 ∧ twoReadings.1.Imitating ∧
      twoReadings.2.Imitating := by
  obtain ⟨hiff, himitating⟩ := prettyPrint_eval (fun _ _ => false) (fun _ => [])
    twoReadings_intOrString.1 twoReadings_intOrString.2
  have hrecut : twoReadings.1.Recut (fun _ => []) twoReadings.2 := by
    by_contra hnot
    exact twoReadings_eval (hiff.mpr (fun h => hnot h.1) twoReadings_text _)
  exact ⟨hrecut, himitating hrecut⟩

theorem not_prettyPrint_eval :
    ¬ ∀ a b : Statement, a.IntOrString → b.IntOrString →
      a.prettyPrint (fun _ => []) 0 = b.prettyPrint (fun _ => []) 0 →
      ∀ record : List Data, record.length = 3 →
        a.eval (fun _ _ => false) record = b.eval (fun _ _ => false) record := fun h =>
  twoReadings_eval (h twoReadings.1 twoReadings.2 twoReadings_intOrString.1
    twoReadings_intOrString.2 twoReadings_text _ rfl)

end HashJoin
