import HashJoin.Statement

/-!
# Printed filters

`pretty_print`, whose text names the cache file of a filtered table. A string literal is printed
between quotes as it is, so its text can go over several lines and imitate the end of its own line
and the start of another. Two filters of one text are the same, up to literals that are not printed,
or each has literals that hold lines of the other.
-/

namespace HashJoin

/-! ## Text -/

/-- The bytes of an ASCII text. -/
def ascii (s : String) : List UInt8 := s.toList.map Char.toUInt8

def newline : UInt8 := 10
def space : UInt8 := 32
def singleQuote : UInt8 := 39

def spaces (indent : Nat) : List UInt8 := List.replicate indent space

/-- An unsigned number in decimal. -/
def decimal (n : Nat) : List UInt8 := (Nat.toDigits 10 n).map Char.toUInt8

def decimalInt (v : Int) : List UInt8 :=
  if v < 0 then ascii "-" ++ decimal v.natAbs else decimal v.natAbs

/-! ## The source -/

/-- `opToString`. -/
def Op.toText : Op → List UInt8
  | .eq => ascii "="
  | .neq => ascii "!="
  | .lt => ascii "<"
  | .gt => ascii ">"
  | .leq => ascii "<="
  | .geq => ascii ">="
  | .like => ascii "LIKE"
  | .notLike => ascii "NOT LIKE"
  | .isNull => ascii "IS NULL"
  | .isNotNull => ascii "IS NOT NULL"

section Print

-- How `fmt` prints a double.
variable (formatDouble : UInt64 → List UInt8)

namespace Comparison

def valueToString (op : Op) (value : Literal) : List UInt8 :=
  if op = .isNull ∨ op = .isNotNull then []
  else
    match value with
    | .varchar s => [singleQuote] ++ s ++ [singleQuote]
    | .null => []
    | .int64 v => decimalInt v.toInt
    | .fp64 bits => formatDouble bits

def prettyPrint (column : Nat) (op : Op) (value : Literal) (indent : Nat) : List UInt8 :=
  spaces indent ++ decimal column ++ ascii " " ++ op.toText ++ ascii " " ++
    valueToString formatDouble op value

end Comparison

/-- `LogicalOperation::pretty_print`, given the texts of the children. -/
def LogicalOperation.prettyPrint (opStr : String) (indent : Nat) (children : List (List UInt8)) :
    List UInt8 :=
  let result := spaces indent ++ ascii "[" ++ ascii opStr ++ ascii "]\n"
  let result := children.foldl (fun result child => result ++ (child ++ ascii "\n")) result
  if children.isEmpty then result else result.dropLast

def Statement.prettyPrint : Statement → (indent : Nat) → List UInt8
  | .comparison column op value, indent =>
    Comparison.prettyPrint formatDouble column op value indent
  | .and l r, indent => LogicalOperation.prettyPrint "AND" indent
    [l.prettyPrint (indent + 2), r.prettyPrint (indent + 2)]
  | .or l r, indent => LogicalOperation.prettyPrint "OR" indent
    [l.prettyPrint (indent + 2), r.prettyPrint (indent + 2)]
  | .not child, indent => LogicalOperation.prettyPrint "NOT" indent
    [child.prettyPrint (indent + 2)]

end Print

/-! ## Literals that imitate lines -/

/-- The first byte of a line after its indentation. -/
def LineStart (c : UInt8) : Prop := c = 91 ∨ 48 ≤ c ∧ c ≤ 57

/-- The literal, with the quote before it, has somewhere a quote, a newline, two spaces or more and
the first byte of a line. -/
def Imitates (s : List UInt8) : Prop :=
  ∃ u k c v, singleQuote :: s = u ++ singleQuote :: newline :: (spaces k ++ c :: v) ∧
    2 ≤ k ∧ LineStart c

/-- A NULL test prints no literal. -/
def Op.PrintsLiteral (op : Op) : Prop := op ≠ .isNull ∧ op ≠ .isNotNull

/-- A string literal that the filter prints imitates a line. -/
def Statement.Imitating : Statement → Prop
  | .comparison _ op value => op.PrintsLiteral ∧ ∃ s, value = .varchar s ∧ Imitates s
  | .and l r | .or l r => l.Imitating ∨ r.Imitating
  | .not child => child.Imitating

/-- The filters differ at most in literals that are not printed. -/
def Statement.Same : Statement → Statement → Prop
  | .comparison column op value, .comparison column' op' value' =>
    column = column' ∧ op = op' ∧ (op.PrintsLiteral → value = value')
  | .and l r, .and l' r' | .or l r, .or l' r' => l.Same l' ∧ r.Same r'
  | .not child, .not child' => child.Same child'
  | _, _ => False

/-- Every literal is an integer or a string. -/
def Statement.IntOrString : Statement → Prop
  | .comparison _ _ value => (∃ v, value = .int64 v) ∨ ∃ s, value = .varchar s
  | .and l r | .or l r => l.IntOrString ∧ r.IntOrString
  | .not child => child.IntOrString

/-! ## Numbers and operators -/

theorem decimal_ne_nil (n : Nat) : decimal n ≠ [] := by
  simp [decimal, Nat.toDigits_ne_nil]

theorem toNat_of_mem_toDigits {n : Nat} {d : Char} (h : d ∈ Nat.toDigits 10 n) :
    48 ≤ d.toNat ∧ d.toNat ≤ 57 ∧ d.toUInt8.toNat = d.toNat := by
  have hdigit : 48 ≤ d.toNat ∧ d.toNat ≤ 57 :=
    Char.isDigit_iff_toNat.mp (Nat.isDigit_of_mem_toDigits (by decide) (by decide) h)
  exact ⟨hdigit.1, hdigit.2, Nat.mod_eq_of_lt (show d.toNat < 256 by omega)⟩

theorem mem_decimal {n : Nat} {c : UInt8} (h : c ∈ decimal n) : 48 ≤ c ∧ c ≤ 57 := by
  obtain ⟨d, hd, rfl⟩ := List.mem_map.mp h
  obtain ⟨hlo, hhi, hbyte⟩ := toNat_of_mem_toDigits hd
  rw [UInt8.le_iff_toNat_le, UInt8.le_iff_toNat_le, hbyte]
  exact ⟨hlo, hhi⟩

theorem decimal_head (n : Nat) : ∃ c cs, decimal n = c :: cs ∧ 48 ≤ c ∧ c ≤ 57 := by
  obtain ⟨c, cs, hcs⟩ := List.exists_cons_of_ne_nil (decimal_ne_nil n)
  have hmem : c ∈ decimal n := by
    rw [hcs]
    exact List.mem_cons_self
  exact ⟨c, cs, hcs, mem_decimal hmem⟩

theorem decimal_inj {m n : Nat} : decimal m = decimal n ↔ m = n := by
  refine ⟨fun h => ?_, fun h => congrArg decimal h⟩
  have hback : ∀ k, (decimal k).map (fun c => Char.ofNat c.toNat) = Nat.toDigits 10 k := fun k => by
    unfold decimal
    rw [List.map_map]
    refine (List.map_congr_left fun d hd => ?_).trans (List.map_id _)
    rw [Function.comp_apply, (toNat_of_mem_toDigits hd).2.2, Char.ofNat_toNat, id]
  have hdigits : Nat.toDigits 10 m = Nat.toDigits 10 n := by
    rw [← hback, ← hback, h]
  have hval := congrArg (Nat.ofDigitChars 10 · 0) hdigits
  simpa [Nat.ofDigitChars_toDigits] using hval

theorem decimalInt_inj {v w : Int} : decimalInt v = decimalInt w ↔ v = w := by
  refine ⟨fun h => ?_, fun h => congrArg decimalInt h⟩
  have hminus : ∀ m n, ascii "-" ++ decimal m ≠ decimal n := fun m n h => by
    have hmem : (45 : UInt8) ∈ decimal n := by
      rw [← h]
      exact List.mem_append_left _ (by decide)
    exact absurd (mem_decimal hmem).1 (by decide)
  unfold decimalInt at h
  split at h <;> split at h
  · have := decimal_inj.mp (List.append_cancel_left h)
    omega
  · exact absurd h (hminus _ _)
  · exact absurd h.symm (hminus _ _)
  · have := decimal_inj.mp h
    omega

/-- The operator can be read off, and what follows it. -/
theorem toText_cancel {op op' : Op} {u u' : List UInt8}
    (h : op.toText ++ space :: u = op'.toText ++ space :: u') : op = op' ∧ u = u' := by
  cases op <;> cases op' <;> simp +decide [Op.toText, ascii, space] at h ⊢ <;> exact h

/-! ## Lines -/

/-- What a line of a printed filter says. The line of a comparison with a string literal may go over
several lines of text. -/
inductive Node where
  | and
  | or
  | not
  | comparison (column : Nat) (op : Op) (value : Literal)

structure Line where
  indent : Nat
  node : Node

section Lines

variable (formatDouble : UInt64 → List UInt8)

def Node.text : Node → List UInt8
  | .and => ascii "[AND]"
  | .or => ascii "[OR]"
  | .not => ascii "[NOT]"
  | .comparison column op value => Comparison.prettyPrint formatDouble column op value 0

def Line.text (x : Line) : List UInt8 := spaces x.indent ++ x.node.text formatDouble

/-- The lines of a printed filter. -/
def Statement.lines : Statement → (indent : Nat) → List Line
  | .comparison column op value, indent => [⟨indent, .comparison column op value⟩]
  | .and l r, indent => ⟨indent, .and⟩ :: (l.lines (indent + 2) ++ r.lines (indent + 2))
  | .or l r, indent => ⟨indent, .or⟩ :: (l.lines (indent + 2) ++ r.lines (indent + 2))
  | .not child, indent => ⟨indent, .not⟩ :: child.lines (indent + 2)

/-- The first line of a printed filter. -/
def Statement.node : Statement → Node
  | .comparison column op value => .comparison column op value
  | .and _ _ => .and
  | .or _ _ => .or
  | .not _ => .not

/-- The lines below the first. -/
def Statement.lowerLines : Statement → (indent : Nat) → List Line
  | .comparison _ _ _, _ => []
  | .and l r, indent | .or l r, indent => l.lines (indent + 2) ++ r.lines (indent + 2)
  | .not child, indent => child.lines (indent + 2)

theorem Statement.lines_eq (stmt : Statement) (indent : Nat) :
    stmt.lines indent = ⟨indent, stmt.node⟩ :: stmt.lowerLines indent := by
  cases stmt <;> rfl

/-- The lines differ at most in a literal that is not printed. -/
def Line.Same (x y : Line) : Prop :=
  x.indent = y.indent ∧ (x.node = y.node ∨ ∃ column op value value',
    x.node = .comparison column op value ∧ y.node = .comparison column op value' ∧
      ¬ op.PrintsLiteral)

/-- The text of a comparison up to its literal. -/
def comparisonHead (indent column : Nat) (op : Op) : List UInt8 :=
  spaces indent ++ (decimal column ++ space :: (op.toText ++ [space]))

/-- The line has the string literal `s` after the text `head`. -/
def Line.Quotes (x : Line) (head s : List UInt8) : Prop :=
  ∃ column op, x.node = .comparison column op (.varchar s) ∧ op.PrintsLiteral ∧
    head = comparisonHead x.indent column op

/-- Two lists of lines are cuts of one text. They go together (`none`) until one has a string
literal that goes on where that of the other ends. Its rest (`some`) holds lines of the other, and
ends with the literal of such a line, or before its quote or inside it: then what is left of that
literal holds lines of the first. -/
inductive Recuts : Option (List UInt8) → List Line → List Line → Prop
  | nil : Recuts none [] []
  | same {x y : Line} {xs ys : List Line} (hsame : x.Same y) (h : Recuts none xs ys) :
    Recuts none (x :: xs) (y :: ys)
  | longer {x y : Line} {xs ys : List Line} {head s rest : List UInt8} (hx : x.Quotes head s)
    (hy : y.Quotes head (s ++ singleQuote :: rest)) (h : Recuts (some rest) xs ys) :
    Recuts none (x :: xs) (y :: ys)
  | shorter {x y : Line} {xs ys : List Line} {head s rest : List UInt8}
    (hx : x.Quotes head (s ++ singleQuote :: rest)) (hy : y.Quotes head s)
    (h : Recuts (some rest) ys xs) : Recuts none (x :: xs) (y :: ys)
  | line {x : Line} {xs ys : List Line} {rest : List UInt8} (h : Recuts (some rest) xs ys) :
    Recuts (some (newline :: (x.text formatDouble ++ rest))) (x :: xs) ys
  | together {x : Line} {xs ys : List Line} {head s : List UInt8} (hx : x.Quotes head s)
    (h : Recuts none xs ys) :
    Recuts (some (newline :: (head ++ singleQuote :: s))) (x :: xs) ys
  | turn {x : Line} {xs ys : List Line} {head s u rest : List UInt8} (hx : x.Quotes head s)
    (hcut : singleQuote :: s = u ++ singleQuote :: rest) (h : Recuts (some rest) ys xs) :
    Recuts (some (newline :: (head ++ u))) (x :: xs) ys

/-- The filters are different cuts of one text. -/
def Statement.Recut (a b : Statement) : Prop :=
  Recuts formatDouble none (a.lines 0) (b.lines 0) ∧ ¬ a.Same b

/-- Some lines, each after a newline. -/
def block (xs : List Line) : List UInt8 := xs.flatMap fun x => newline :: x.text formatDouble

theorem block_cons (x : Line) (xs : List Line) :
    block formatDouble (x :: xs) = newline :: (x.text formatDouble ++ block formatDouble xs) := rfl

theorem block_append (xs ys : List Line) :
    block formatDouble (xs ++ ys) = block formatDouble xs ++ block formatDouble ys :=
  List.flatMap_append

theorem block_ne_nil {xs : List Line} (h : xs ≠ []) : block formatDouble xs ≠ [] := by
  obtain ⟨x, xs, rfl⟩ := List.exists_cons_of_ne_nil h
  exact List.cons_ne_nil _ _

/-- The header, and each child after a newline. -/
theorem LogicalOperation.prettyPrint_eq (opStr : String) (indent : Nat)
    {children : List (List UInt8)} (h : children ≠ []) :
    LogicalOperation.prettyPrint opStr indent children =
      spaces indent ++ (ascii "[" ++ ascii opStr ++ ascii "]") ++
        children.flatMap (newline :: ·) := by
  have hfold : ∀ (cs : List (List UInt8)) (head : List UInt8),
      cs.foldl (fun result child => result ++ (child ++ ascii "\n")) (head ++ [newline]) =
        head ++ cs.flatMap (newline :: ·) ++ [newline] := by
    intro cs
    induction cs with
    | nil => simp
    | cons c cs ih =>
      intro head
      have hnext : head ++ [newline] ++ (c ++ ascii "\n") =
          (head ++ newline :: c) ++ [newline] := by
        simp [show ascii "\n" = [newline] from rfl]
      rw [List.foldl_cons, hnext, ih]
      simp
  have hhead : spaces indent ++ ascii "[" ++ ascii opStr ++ ascii "]\n" =
      spaces indent ++ (ascii "[" ++ ascii opStr ++ ascii "]") ++ [newline] := by
    simp [show ascii "]\n" = ascii "]" ++ [newline] from rfl]
  unfold LogicalOperation.prettyPrint
  simp only [hhead, hfold, List.isEmpty_iff, h, if_false, List.dropLast_concat]

theorem Statement.prettyPrint_eq (stmt : Statement) (indent : Nat) :
    newline :: stmt.prettyPrint formatDouble indent = block formatDouble (stmt.lines indent) := by
  induction stmt generalizing indent with
  | comparison column op value =>
    simp [prettyPrint, lines, block, Line.text, Node.text, Comparison.prettyPrint, spaces]
  | and l r ihl ihr =>
    unfold prettyPrint
    rw [LogicalOperation.prettyPrint_eq _ _ (by simp), lines, block_cons,
      block_append, ← ihl, ← ihr]
    simp [Line.text, Node.text]
    rfl
  | or l r ihl ihr =>
    unfold prettyPrint
    rw [LogicalOperation.prettyPrint_eq _ _ (by simp), lines, block_cons,
      block_append, ← ihl, ← ihr]
    simp [Line.text, Node.text]
    rfl
  | not child ih =>
    unfold prettyPrint
    rw [LogicalOperation.prettyPrint_eq _ _ (by simp), lines, block_cons, ← ih]
    simp [Line.text, Node.text]
    rfl

end Lines

end HashJoin
