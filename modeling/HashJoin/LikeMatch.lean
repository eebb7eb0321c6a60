import HashJoin.Lib.Regex
import HashJoin.Statement

/-!
# `LIKE`

`like_match` turns a pattern into a regular expression, which a thread compiles once and keeps. The
expression matches what the pattern does in SQL, but for a newline, which `.` does not match: a
string with a newline in the place of a wildcard is not found.
-/

namespace HashJoin

open Computability

/-! ## The translation -/

/-- What is used of RE2: the expression made of a text, if it is `ok()`, and `FullMatch`. -/
structure RE2 where
  Expr : Type
  compile : List UInt8 → Option Expr
  fullMatch : List UInt8 → Expr → Bool

/-- RE2 with the default options: literals and escaped punctuation match themselves, `.` any
character but a newline, `*` repeats, and `FullMatch` wants the whole string. -/
def RE2.Documented (re2 : RE2) (E : Encoding) : Prop :=
  ∀ pieces : List RegexPiece, (∀ p ∈ pieces, p.atom.Valid) →
    ∃ re, re2.compile (Regex.text pieces) = some re ∧
      ∀ str, re2.fullMatch str re = true ↔ str ∈ Regex.language E pieces

namespace Comparison

/-- The special characters, from the backslash to the closing brace. -/
def special : List UInt8 := [92, 46, 94, 36, 124, 63, 42, 43, 40, 41, 91, 93, 123, 125]

/-- What one character of a pattern adds to `regex_str`. -/
def regexOfChar (c : UInt8) : List UInt8 :=
  if c = '%'.toUInt8 then [46, 42]
  else if c = '_'.toUInt8 then [46]
  else if c ∈ special then [92, c]
  else [c]

/-- `regex_str`. -/
def regexStr (pattern : List UInt8) : List UInt8 := pattern.flatMap regexOfChar

/-- `regex_cache`, which a thread has of its own. -/
abbrev RegexCache (re2 : RE2) : Type := List (List UInt8 × re2.Expr)

/-- `like_match`, with the cache that it leaves. -/
def likeMatch (re2 : RE2) (cache : RegexCache re2) (str pattern : List UInt8) :
    Bool × RegexCache re2 :=
  match cache.lookup pattern with
  | some re => (re2.fullMatch str re, cache)
  | none =>
    match re2.compile (regexStr pattern) with
    | none => (false, cache)
    | some re => (re2.fullMatch str re, (pattern, re) :: cache)

/-- The cache after the calls of a thread. -/
def regexCache (re2 : RE2) (calls : List (List UInt8 × List UInt8)) : RegexCache re2 :=
  calls.foldl (fun cache call => (likeMatch re2 cache call.1 call.2).2) []

/-! ## The meaning of a pattern -/

/-- The words for one character of a pattern in SQL. -/
def sqlLikeChar (E : Encoding) (c : UInt8) : Language UInt8 :=
  if c = '%'.toUInt8 then E.characters∗
  else if c = '_'.toUInt8 then E.characters
  else {[c]}

/-- The strings that are `LIKE` a pattern. -/
def sqlLike (E : Encoding) (pattern : List UInt8) : Language UInt8 :=
  (pattern.map (sqlLikeChar E)).prod

/-! ## The expression of a pattern -/

/-- The piece that a character becomes. -/
def pieceOfChar (c : UInt8) : RegexPiece :=
  if c = '%'.toUInt8 then ⟨.dot, true⟩
  else if c = '_'.toUInt8 then ⟨.dot, false⟩
  else if c ∈ special then ⟨.escaped c, false⟩
  else ⟨.literal c, false⟩

theorem text_pieceOfChar (c : UInt8) : (pieceOfChar c).text = regexOfChar c := by
  unfold pieceOfChar regexOfChar
  split_ifs <;> rfl

theorem text_pieces (pattern : List UInt8) :
    Regex.text (pattern.map pieceOfChar) = regexStr pattern := by
  unfold Regex.text
  rw [List.flatMap_map]
  exact List.flatMap_congr fun c _ => text_pieceOfChar c

/-- The special characters are punctuation, and the others have no meaning of their own. -/
theorem valid_pieceOfChar {c : UInt8} (hc : c < 128) : (pieceOfChar c).atom.Valid := by
  unfold pieceOfChar
  split_ifs with hpercent hunderscore hspecial
  · trivial
  · trivial
  · simp only [special, List.mem_cons, List.not_mem_nil, or_false] at hspecial
    unfold RegexAtom.Valid
    rcases hspecial with rfl | rfl | rfl | rfl | rfl | rfl | rfl | rfl | rfl | rfl | rfl | rfl |
      rfl | rfl <;> decide
  · exact ⟨hc, hspecial⟩

/-- The piece matches what the character stands for, without the newlines of a wildcard. -/
theorem fewest_pieceOfChar (E : Encoding) (c : UInt8) :
    Fewest 10 ((pieceOfChar c).language E) (sqlLikeChar E c) ([c].count 10) := by
  unfold pieceOfChar sqlLikeChar
  split_ifs with hpercent hunderscore hspecial
  · rw [hpercent]
    exact E.fewest_dot.kstar
  · rw [hunderscore]
    exact E.fewest_dot
  · exact Fewest.singleton [c]
  · exact Fewest.singleton [c]

/-- The expression matches the strings that are `LIKE` the pattern and have no newline but the
ones that the pattern asks for. -/
theorem fewest_pieces (E : Encoding) (pattern : List UInt8) :
    Fewest 10 (Regex.language E (pattern.map pieceOfChar)) (sqlLike E pattern)
      (pattern.count 10) := by
  have hcount : (pattern.map fun c => [c].count 10).sum = pattern.count 10 := by
    induction pattern with
    | nil => rfl
    | cons c pattern ih =>
      rw [List.map_cons, List.sum_cons, ih]
      exact List.count_append.symm
  rw [← hcount, Regex.language, List.map_map]
  exact Fewest.prod fun c _ => fewest_pieceOfChar E c

/-! ## The cache -/

variable {re2 : RE2}

/-- A cache holds the expressions of its patterns. -/
def CacheInv (cache : RegexCache re2) : Prop :=
  ∀ pattern re, cache.lookup pattern = some re → re2.compile (regexStr pattern) = some re

/-- What a call finds does not depend on the cache, and it leaves a good one. -/
theorem likeMatch_spec {cache : RegexCache re2} (h : CacheInv cache) (str pattern : List UInt8) :
    (likeMatch re2 cache str pattern).1 = (re2.compile (regexStr pattern)).any (re2.fullMatch str) ∧
      CacheInv (likeMatch re2 cache str pattern).2 := by
  unfold likeMatch
  cases hlookup : cache.lookup pattern with
  | some re =>
    rw [h pattern re hlookup]
    exact ⟨rfl, h⟩
  | none =>
    cases hcompile : re2.compile (regexStr pattern) with
    | none => exact ⟨rfl, h⟩
    | some re =>
      refine ⟨rfl, fun q r hq => ?_⟩
      rw [List.lookup_cons] at hq
      by_cases hqp : q = pattern
      · subst hqp
        simp only [beq_self_eq_true, Option.some.injEq] at hq
        rw [hcompile, hq]
      · rw [beq_false_of_ne hqp] at hq
        exact h q r hq

theorem cacheInv_regexCache (calls : List (List UInt8 × List UInt8)) :
    CacheInv (regexCache re2 calls) := by
  induction calls using List.reverseRecOn with
  | nil => exact fun _ _ h => absurd h (by simp [regexCache])
  | append_singleton calls call ih =>
    unfold regexCache
    rw [List.foldl_append]
    exact (likeMatch_spec ih call.1 call.2).2

/-- The calls before make no difference, so that the evaluations can take `like_match` as a
function of the string and the pattern. -/
theorem likeMatch_regexCache (calls : List (List UInt8 × List UInt8)) (str pattern : List UInt8) :
    (likeMatch re2 (regexCache re2 calls) str pattern).1 = (likeMatch re2 [] str pattern).1 := by
  rw [(likeMatch_spec (cacheInv_regexCache calls) str pattern).1]
  exact ((likeMatch_spec (cacheInv_regexCache []) str pattern).1).symm

/-- `like_match` finds the strings that are `LIKE` the pattern and have as many newlines. -/
theorem likeMatch_eq_true_iff {E : Encoding} (hre2 : re2.Documented E) {cache : RegexCache re2}
    (hcache : CacheInv cache) (str : List UInt8) {pattern : List UInt8}
    (hascii : ∀ c ∈ pattern, c < 128) :
    (likeMatch re2 cache str pattern).1 = true ↔
      str ∈ sqlLike E pattern ∧ str.count 10 = pattern.count 10 := by
  have hvalid : ∀ p ∈ pattern.map pieceOfChar, p.atom.Valid := by
    intro p hp
    obtain ⟨c, hc, rfl⟩ := List.mem_map.mp hp
    exact valid_pieceOfChar (hascii c hc)
  obtain ⟨re, hcompile, hmatch⟩ := hre2 _ hvalid
  rw [text_pieces] at hcompile
  rw [(likeMatch_spec hcache str pattern).1, hcompile, Option.any_some, hmatch]
  exact (fewest_pieces E pattern).mem_iff str

/-- After any calls of its thread, `like_match` decides `LIKE` for a string and a pattern if and
only if the string is not `LIKE` the pattern or has as many newlines as the pattern. -/
theorem likeMatch_iff {E : Encoding} (hre2 : re2.Documented E)
    (calls : List (List UInt8 × List UInt8)) (str : List UInt8) {pattern : List UInt8}
    (hascii : ∀ c ∈ pattern, c < 128) :
    ((likeMatch re2 (regexCache re2 calls) str pattern).1 = true ↔ str ∈ sqlLike E pattern) ↔
      (str ∈ sqlLike E pattern → str.count 10 = pattern.count 10) := by
  rw [likeMatch_eq_true_iff hre2 (cacheInv_regexCache calls) str hascii]
  exact and_iff_left_iff_imp

end Comparison

/-! ## A matcher -/

open Classical in
/-- A matcher that reads an expression as it is documented. -/
noncomputable def RE2.reader (E : Encoding) : RE2 where
  Expr := List RegexPiece
  compile regex := some (Regex.parse regex)
  fullMatch str re := decide (str ∈ Regex.language E re)

theorem RE2.documented_reader (E : Encoding) : (reader E).Documented E := by
  intro pieces hvalid
  refine ⟨pieces, congrArg some (Regex.parse_text hvalid), fun str => ?_⟩
  simp only [reader, decide_eq_true_eq]

namespace Comparison

/-- In UTF-8 a call that comes after another finds that `ab` is `LIKE 'a_'`. -/
theorem likeMatch_iff_ab :
    (likeMatch (RE2.reader .utf8) (regexCache (RE2.reader .utf8) [([98], [37])])
      [97, 98] [97, 95]).1 = true := by
  have hascii : ∀ c ∈ [97, 95], c < (128 : UInt8) := by simp
  refine ((likeMatch_iff (RE2.documented_reader .utf8) [([98], [37])] [97, 98] hascii).mpr
    fun _ => by decide).mpr ?_
  have hb : [98] ∈ Encoding.utf8.characters := Encoding.utf8.ascii 98 (by decide)
  exact Language.append_mem_mul (a := [97]) (b := [98]) rfl
    (Language.append_mem_mul (a := [98]) (b := []) hb rfl)

/-- `a`, a newline and `b` are `LIKE 'a%b'`, but not found. -/
theorem not_likeMatch_newline :
    ¬ ((likeMatch (RE2.reader .utf8) [] [97, 10, 98] [97, 37, 98]).1 = true ↔
      [97, 10, 98] ∈ sqlLike .utf8 [97, 37, 98]) := by
  have hten : [10] ∈ Encoding.utf8.characters := Encoding.utf8.ascii 10 (by decide)
  have hstar : [10] ∈ Encoding.utf8.characters∗ :=
    Language.mem_kstar.mpr ⟨[[10]], rfl, by simpa using hten⟩
  have hlike : [97, 10, 98] ∈ sqlLike .utf8 [97, 37, 98] :=
    Language.append_mem_mul (a := [97]) (b := [10, 98]) rfl
      (Language.append_mem_mul (a := [10]) (b := [98]) hstar
        (Language.append_mem_mul (a := [98]) (b := []) rfl rfl))
  intro h
  have hascii : ∀ c ∈ [97, 37, 98], c < (128 : UInt8) := by simp
  have hcount := (likeMatch_eq_true_iff (RE2.documented_reader .utf8) (cacheInv_regexCache [])
    [97, 10, 98] hascii).mp (h.mpr hlike)
  exact absurd hcount.2 (by decide)

end Comparison

end HashJoin
