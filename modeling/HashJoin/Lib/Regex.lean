import Mathlib.Computability.Language
import Mathlib.Tactic

/-!
# Languages of encoded characters

Languages in which a letter occurs as seldom as in no larger one, characters as they are encoded
in bytes, and the part of the syntax of regular expressions that has literals, escaped
punctuation, `.` and `*`.
-/

namespace HashJoin

open Computability

/-! ## Counting a letter -/

/-- `l` are the words of `m` in which `c` occurs `k` times, and in no word of `m` does it occur
less often. -/
structure Fewest {α : Type} [DecidableEq α] (c : α) (l m : Language α) (k : Nat) : Prop where
  mem_iff : ∀ x, x ∈ l ↔ x ∈ m ∧ x.count c = k
  le : ∀ x ∈ m, k ≤ x.count c

namespace Fewest

variable {α : Type} [DecidableEq α] {c : α} {l l' m m' : Language α} {k k' : Nat}

theorem one : Fewest c 1 1 0 where
  mem_iff x := by
    rw [Language.mem_one]
    refine ⟨?_, And.left⟩
    rintro rfl
    exact ⟨rfl, List.count_nil⟩
  le _ _ := Nat.zero_le _

theorem singleton (w : List α) : Fewest c {w} {w} (w.count c) where
  mem_iff x := by
    refine ⟨?_, And.left⟩
    rintro rfl
    exact ⟨rfl, rfl⟩
  le x hx := by rw [Set.mem_singleton_iff.mp hx]

/-- In a concatenation of two words the letter occurs as seldom as possible if it does in both. -/
theorem mul (h : Fewest c l m k) (h' : Fewest c l' m' k') :
    Fewest c (l * l') (m * m') (k + k') where
  mem_iff x := by
    rw [Language.mem_mul, Language.mem_mul]
    constructor
    · rintro ⟨a, ha, b, hb, rfl⟩
      obtain ⟨ham, hak⟩ := (h.mem_iff a).mp ha
      obtain ⟨hbm, hbk⟩ := (h'.mem_iff b).mp hb
      exact ⟨⟨a, ham, b, hbm, rfl⟩, by rw [List.count_append, hak, hbk]⟩
    · rintro ⟨⟨a, ha, b, hb, rfl⟩, hcount⟩
      have hak := h.le a ha
      have hbk := h'.le b hb
      rw [List.count_append] at hcount
      exact ⟨a, (h.mem_iff a).mpr ⟨ha, by omega⟩, b, (h'.mem_iff b).mpr ⟨hb, by omega⟩, rfl⟩
  le x hx := by
    obtain ⟨a, ha, b, hb, rfl⟩ := Language.mem_mul.mp hx
    rw [List.count_append]
    exact Nat.add_le_add (h.le a ha) (h'.le b hb)

theorem kstar (h : Fewest c l m 0) : Fewest c l∗ m∗ 0 where
  mem_iff x := by
    rw [Language.mem_kstar, Language.mem_kstar]
    constructor
    · rintro ⟨words, rfl, hwords⟩
      refine ⟨⟨words, rfl, fun w hw => ((h.mem_iff w).mp (hwords w hw)).1⟩, ?_⟩
      rw [List.count_eq_zero, List.mem_flatten]
      rintro ⟨w, hw, hc⟩
      exact List.count_eq_zero.mp ((h.mem_iff w).mp (hwords w hw)).2 hc
    · rintro ⟨⟨words, rfl, hwords⟩, hcount⟩
      refine ⟨words, rfl, fun w hw => (h.mem_iff w).mpr ⟨hwords w hw, ?_⟩⟩
      rw [List.count_eq_zero] at hcount ⊢
      exact fun hc => hcount (List.mem_flatten.mpr ⟨w, hw, hc⟩)
  le _ _ := Nat.zero_le _

theorem prod {ι : Type} {f g : ι → Language α} {w : ι → Nat} {is : List ι}
    (h : ∀ i ∈ is, Fewest c (f i) (g i) (w i)) :
    Fewest c (is.map f).prod (is.map g).prod (is.map w).sum := by
  induction is with
  | nil => exact one
  | cons i is ih =>
    simp only [List.map_cons, List.prod_cons, List.sum_cons]
    exact (h i List.mem_cons_self).mul (ih fun j hj => h j (List.mem_cons_of_mem _ hj))

end Fewest

/-! ## Characters -/

/-- The bytes that stand for one character: one byte for a character of ASCII, and no other
character has the byte of a newline. -/
structure Encoding where
  characters : Language UInt8
  ascii : ∀ b < 128, [b] ∈ characters
  newline : ∀ x ∈ characters, 10 ∈ x → x = [10]

namespace Encoding

/-- Any character but a newline. -/
def dot (E : Encoding) : Language UInt8 := {x | x ∈ E.characters ∧ x ≠ [10]}

theorem fewest_dot (E : Encoding) : Fewest 10 E.dot E.characters 0 where
  mem_iff x := by
    apply and_congr_right
    intro hx
    rw [List.count_eq_zero, not_iff_not]
    constructor
    · rintro rfl
      exact List.mem_singleton_self _
    · exact E.newline x hx
  le _ _ := Nat.zero_le _

/-- The byte of a newline is no part of a longer encoding. -/
theorem mem_utf8EncodeChar {c : Char} (h : (10 : UInt8) ∈ String.utf8EncodeChar c) :
    String.utf8EncodeChar c = [10] := by
  have hne : ∀ a b : Nat, 128 ≤ a + b → a + b < 256 → (10 : UInt8) ≠ UInt8.ofNat (a + b) := by
    intro a b hlo hhi heq
    have := congrArg UInt8.toNat heq
    rw [UInt8.toNat_ofNat', Nat.mod_eq_of_lt hhi] at this
    have hten : (10 : UInt8).toNat = 10 := rfl
    omega
  unfold String.utf8EncodeChar at h ⊢
  simp only at h ⊢
  split_ifs at h ⊢ with h1 h2 h3
  · rw [List.mem_singleton] at h
    rw [← h]
  · simp only [List.mem_cons, List.not_mem_nil, or_false] at h
    rcases h with h | h
    · exact absurd h (hne _ _ (by omega) (by omega))
    · exact absurd h (hne _ _ (by omega) (by omega))
  · simp only [List.mem_cons, List.not_mem_nil, or_false] at h
    rcases h with h | h | h
    · exact absurd h (hne _ _ (by omega) (by omega))
    · exact absurd h (hne _ _ (by omega) (by omega))
    · exact absurd h (hne _ _ (by omega) (by omega))
  · simp only [List.mem_cons, List.not_mem_nil, or_false] at h
    rcases h with h | h | h | h
    · exact absurd h (hne _ _ (by omega) (by omega))
    · exact absurd h (hne _ _ (by omega) (by omega))
    · exact absurd h (hne _ _ (by omega) (by omega))
    · exact absurd h (hne _ _ (by omega) (by omega))

/-- UTF-8. -/
def utf8 : Encoding where
  characters := Set.range String.utf8EncodeChar
  ascii b hb := by
    have h127 : b.toNat ≤ 127 := Nat.lt_succ_iff.mp (UInt8.lt_iff_toNat_lt.mp hb)
    have hval : (Char.ofUInt8 b).val.toNat = b.toNat := rfl
    refine ⟨Char.ofUInt8 b, ?_⟩
    simp [String.utf8EncodeChar, hval, h127]
  newline := by
    rintro _ ⟨c, rfl⟩ h
    exact mem_utf8EncodeChar h

end Encoding

/-! ## Regular expressions -/

/-- What one character of a regular expression, or an escaped one, matches. -/
inductive RegexAtom where
  | literal (b : UInt8)
  | escaped (b : UInt8)
  | dot

/-- An atom, or as many of it as one likes if it is followed by `*`. -/
structure RegexPiece where
  atom : RegexAtom
  star : Bool

namespace RegexAtom

/-- The characters with a meaning of their own. -/
def metacharacters : List UInt8 := [92, 46, 94, 36, 124, 63, 42, 43, 40, 41, 91, 93, 123, 125]

/-- A literal is a character of ASCII without a meaning of its own, and punctuation of ASCII can be
escaped. -/
def Valid : RegexAtom → Prop
  | literal b => b < 128 ∧ b ∉ metacharacters
  | escaped b => 33 ≤ b ∧ b ≤ 47 ∨ 58 ≤ b ∧ b ≤ 64 ∨ 91 ≤ b ∧ b ≤ 96 ∨ 123 ≤ b ∧ b ≤ 126
  | dot => True

def text : RegexAtom → List UInt8
  | literal b => [b]
  | escaped b => [92, b]
  | dot => [46]

/-- The words that an atom matches: its own character, or any but a newline. -/
def language (E : Encoding) : RegexAtom → Language UInt8
  | literal b | escaped b => {[b]}
  | dot => E.dot

end RegexAtom

namespace RegexPiece

def text (p : RegexPiece) : List UInt8 := p.atom.text ++ if p.star then [42] else []

def language (E : Encoding) (p : RegexPiece) : Language UInt8 :=
  if p.star then (p.atom.language E)∗ else p.atom.language E

end RegexPiece

namespace Regex

/-- The text of a regular expression. -/
def text (pieces : List RegexPiece) : List UInt8 := pieces.flatMap RegexPiece.text

/-- The words that it matches from the first character to the last. -/
def language (E : Encoding) (pieces : List RegexPiece) : Language UInt8 :=
  (pieces.map (RegexPiece.language E)).prod

/-- The pieces of a text. -/
def parse : List UInt8 → List RegexPiece
  | 92 :: b :: 42 :: rest => ⟨.escaped b, true⟩ :: parse rest
  | 92 :: b :: rest => ⟨.escaped b, false⟩ :: parse rest
  | 46 :: 42 :: rest => ⟨.dot, true⟩ :: parse rest
  | 46 :: rest => ⟨.dot, false⟩ :: parse rest
  | b :: 42 :: rest => ⟨.literal b, true⟩ :: parse rest
  | b :: rest => ⟨.literal b, false⟩ :: parse rest
  | [] => []

/-- No text starts with a `*`. -/
theorem head?_text_ne {pieces : List RegexPiece} (h : ∀ p ∈ pieces, p.atom.Valid) :
    (text pieces).head? ≠ some 42 := by
  cases pieces with
  | nil => simp [text]
  | cons p pieces =>
    have hp := h p List.mem_cons_self
    rcases p with ⟨b | b | _, star⟩
    · rintro heq
      simp only [text, List.flatMap_cons, RegexPiece.text, RegexAtom.text, List.cons_append,
        List.head?_cons, Option.some.injEq] at heq
      subst heq
      exact hp.2 (by decide)
    · simp [text, RegexPiece.text, RegexAtom.text]
    · simp [text, RegexPiece.text, RegexAtom.text]

/-- Without a `*` behind it a piece is read up to where it ends. -/
theorem parse_text_append {p : RegexPiece} (hp : p.atom.Valid) {rest : List UInt8}
    (hrest : rest.head? ≠ some 42) : parse (p.text ++ rest) = p :: parse rest := by
  rcases p with ⟨b | b | _, star⟩
  · have hb92 : b ≠ 92 := by
      rintro rfl
      exact hp.2 (by decide)
    have hb46 : b ≠ 46 := by
      rintro rfl
      exact hp.2 (by decide)
    cases star with
    | true => simp [RegexPiece.text, RegexAtom.text, parse, hb92]
    | false =>
      cases rest with
      | nil => simp [RegexPiece.text, RegexAtom.text, parse]
      | cons c rest => simp_all [RegexPiece.text, RegexAtom.text, parse]
  · cases star with
    | true => rfl
    | false =>
      cases rest with
      | nil => rfl
      | cons c rest => simp_all [RegexPiece.text, RegexAtom.text, parse]
  · cases star with
    | true => rfl
    | false =>
      cases rest with
      | nil => rfl
      | cons c rest => simp_all [RegexPiece.text, RegexAtom.text, parse]

/-- A text has only one reading. -/
theorem parse_text {pieces : List RegexPiece} (h : ∀ p ∈ pieces, p.atom.Valid) :
    parse (text pieces) = pieces := by
  induction pieces with
  | nil => rfl
  | cons p pieces ih =>
    have hvalid : ∀ q ∈ pieces, q.atom.Valid := fun q hq => h q (List.mem_cons_of_mem _ hq)
    calc parse (p.text ++ text pieces) = p :: parse (text pieces) :=
          parse_text_append (h p List.mem_cons_self) (head?_text_ne hvalid)
      _ = p :: pieces := by rw [ih hvalid]

end Regex

end HashJoin
