import ChainedSet.Json.Token
import ChainedSet.Proofs.Json.Numeral

/-!
# Tokens are read as they are written

First the characters of strings: each is written so that it is read as one piece, whatever stands
before and after it (`exists_piece`), and so a string is read back from its quoted text
(`unquote?_escape`). Then single tokens (`next?_text_append`). Only a numeral could be mistaken for
a part of a longer one, so in a sequence of tokens without blanks one of two neighbours has to be a
delimiter (`Legible`); such a sequence is read back from its text (`scan_flatMap_text`).
-/

namespace ChainedSet.Json

/-! ## Strings -/

namespace Piece

theorem hexUnit?_hexDigit :
    ∀ n < 32, hexUnit? '0' '0' (hexDigit (n / 16)) (hexDigit n) = some n := by
  decide

/-- A character is written as one piece. -/
theorem exists_piece (c : Char) : ∃ p,
    (∀ before rest, scan before (escapeChar c ++ rest) = scan (p :: before) rest) ∧
      ∀ before ps, join before (p :: ps) = join (c :: before) ps := by
  have hchar : ∀ before ps, join before (.char c :: ps) = join (c :: before) ps :=
    fun _ _ => rfl
  unfold escapeChar
  -- Seven characters have a letter of their own.
  iterate 7
    split
    case isTrue h => exact ⟨.char c, fun _ _ => by rw [h]; rfl, hchar⟩
  split
  case isTrue h =>
    -- A control character is written by its number, which no surrogate has.
    refine ⟨.unit c.toNat, ?_, ?_⟩
    · intro before rest
      show scan before ('\\' :: 'u' :: '0' :: '0' :: hexDigit (c.toNat / 16) ::
        hexDigit c.toNat :: rest) = _
      rw [scan, hexUnit?_hexDigit _ h]
    · intro before ps
      have hhigh : isHigh c.toNat = false := by simp [isHigh]; omega
      have hlow : isLow c.toNat = false := by simp [isLow]; omega
      rw [join.eq_def]
      simp only [hhigh, hlow, Char.ofNat_toNat, Bool.false_eq_true, if_false]
  case isFalse hquote hbackslash _ _ _ _ _ hcontrol =>
    refine ⟨.char c, ?_, hchar⟩
    intro before rest
    show scan before (c :: rest) = _
    rw [scan, if_neg hcontrol]
    all_goals grind

/-- The characters of a string are written as as many pieces, which stand for them. -/
theorem exists_pieces (cs : List Char) : ∃ ps,
    (∀ before rest, scan before (cs.flatMap escapeChar ++ rest) =
      scan (ps.reverse ++ before) rest) ∧
      ∀ before, join before ps = some (before.reverse ++ cs) := by
  induction cs with
  | nil => exact ⟨[], fun _ _ => rfl, fun before => by rw [join, List.append_nil]⟩
  | cons c cs ih =>
    obtain ⟨p, hscan, hjoin⟩ := exists_piece c
    obtain ⟨ps, hscans, hjoins⟩ := ih
    refine ⟨p :: ps, ?_, ?_⟩
    · intro before rest
      rw [List.flatMap_cons, List.append_assoc, hscan, hscans, List.reverse_cons,
        List.append_assoc, List.singleton_append]
    · intro before
      rw [hjoin, hjoins, List.reverse_cons, List.append_assoc, List.singleton_append]

end Piece

/-- **A string is read back from its text.** -/
theorem unquote?_escape (s : String) (rest : List Char) :
    unquote? (s.toList.flatMap escapeChar ++ '"' :: rest) = some (s, rest) := by
  obtain ⟨ps, hscan, hjoin⟩ := Piece.exists_pieces s.toList
  have hend : Piece.scan (ps.reverse ++ []) ('"' :: rest) = some (ps, rest) := by
    rw [Piece.scan, List.append_nil, List.reverse_reverse]
  rw [unquote?, hscan, hend]
  show (Piece.join [] ps).map (fun s => (String.ofList s, rest)) = some (s, rest)
  rw [hjoin, List.reverse_nil, List.nil_append, Option.map_some, String.ofList_toList]

namespace Token

/-! ## Tokens -/

/-- A token that can be written down. -/
def Writable : Token → Prop
  | number n => n.WellFormed ∧ n.fits = true
  | _ => True

/-- A bracket, a brace, a colon or a comma. -/
def isDelimiter : Token → Bool
  | openBracket | closeBracket | openBrace | closeBrace | colon | comma => true
  | _ => false

theorem ends_of_isDelimiter {t : Token} (h : t.isDelimiter = true) (rest : List Char) :
    Numeral.Ends (t.text ++ rest) := by
  intro c hc
  cases t with
  | null => cases h
  | bool b => cases h
  | number n => cases h
  | string s => cases h
  | _ =>
    obtain rfl : _ = c := Option.some.inj hc
    decide

theorem next?_eq_number? {c : Char} (h : c.isDigit = true ∨ c = '-') (cs : List Char) :
    next? (c :: cs) = number? (c :: cs) := by
  unfold next?
  split
  case h_11 => rfl
  all_goals
    rename_i heq
    cases heq
    exact absurd h (by decide)

/-- What follows a token is of no concern to it unless it is a numeral. -/
theorem next?_text_append {t : Token} {rest : List Char} (h : t.Writable)
    (hrest : t.isDelimiter = true ∨ Numeral.Ends rest) :
    next? (t.text ++ rest) = some (t, rest) := by
  cases t with
  | number n =>
    obtain ⟨hn, hfits⟩ := h
    obtain ⟨c, cs, htext, hc⟩ := hn.exists_text_eq_cons
    have hscan : Numeral.scan? (c :: cs ++ rest) = some (n, rest) := by
      rw [← htext]
      exact Numeral.scan?_text_append hn (hrest.resolve_left Bool.false_ne_true)
    show next? (n.text ++ rest) = some (number n, rest)
    rw [htext, List.cons_append, next?_eq_number? hc, number?, ← List.cons_append, hscan]
    simp only [hfits, if_true]
  | string s =>
    show next? ('"' :: (s.toList.flatMap escapeChar ++ ['"'] ++ rest)) = some (string s, rest)
    rw [next?, List.append_assoc, List.singleton_append, unquote?_escape]
    rfl
  | bool b => cases b <;> rfl
  | _ => rfl

theorem isBlank_eq_false {c : Char} (h : c.isDigit = true ∨ c = '-') : isBlank c = false := by
  simp only [isBlank, Bool.or_eq_false_iff, beq_eq_false_iff_ne]
  refine ⟨⟨⟨?_, ?_⟩, ?_⟩, ?_⟩ <;>
  · rintro rfl
    exact absurd h (by decide)

theorem exists_text_eq_cons {t : Token} (h : t.Writable) :
    ∃ c cs, t.text = c :: cs ∧ isBlank c = false := by
  cases t with
  | number n =>
    obtain ⟨c, cs, htext, hc⟩ := h.1.exists_text_eq_cons
    exact ⟨c, cs, htext, isBlank_eq_false hc⟩
  | bool b => cases b <;> exact ⟨_, _, rfl, by decide⟩
  | _ => exact ⟨_, _, rfl, by decide⟩

/-! ## Sequences of tokens -/

/-- Tokens that need no blanks between them: of any two neighbours one is a delimiter. -/
structure Legible (ts : List Token) : Prop where
  writable : ∀ t ∈ ts, t.Writable
  separated : ts.IsChain fun t u => t.isDelimiter = true ∨ u.isDelimiter = true

theorem legible_nil : Legible [] where
  writable := fun _ ht => nomatch ht
  separated := List.isChain_nil

theorem legible_cons_iff {t : Token} {ts : List Token} :
    Legible (t :: ts) ↔
      t.Writable ∧ (∀ u ∈ ts.head?, t.isDelimiter = true ∨ u.isDelimiter = true) ∧ Legible ts := by
  constructor
  · rintro ⟨hwritable, hseparated⟩
    obtain ⟨ht, hts⟩ := List.forall_mem_cons.mp hwritable
    obtain ⟨hhead, htail⟩ := List.isChain_cons.mp hseparated
    exact ⟨ht, hhead, hts, htail⟩
  · rintro ⟨ht, hhead, hts, htail⟩
    exact ⟨List.forall_mem_cons.mpr ⟨ht, hts⟩, List.isChain_cons.mpr ⟨hhead, htail⟩⟩

/-- A delimiter may stand before any tokens. -/
theorem Legible.delimiter {t : Token} {ts : List Token} (h : Legible ts)
    (ht : t.isDelimiter = true) : Legible (t :: ts) := by
  refine legible_cons_iff.mpr ⟨?_, fun _ _ => Or.inl ht, h⟩
  cases t with
  | number n => cases ht
  | _ => trivial

theorem scanAfter_nil (before : List Token) : scanAfter before [] = some before.reverse := by
  rw [scanAfter]
  rfl

theorem scanAfter_cons {before : List Token} {c : Char} {cs rest : List Char} {t : Token}
    (hc : isBlank c = false) (h : next? (c :: cs) = some (t, rest)) :
    scanAfter before (c :: cs) = scanAfter (t :: before) rest := by
  have hblank : (c :: cs).dropWhile isBlank = c :: cs := by simp [hc]
  rw [scanAfter]
  split
  · next hnil => rw [hblank] at hnil; cases hnil
  · next c' cs' hcons =>
    rw [hblank] at hcons
    cases hcons
    split
    · next hnone => rw [h] at hnone; cases hnone
    · next hsome => rw [h] at hsome; cases hsome; rfl

theorem scanAfter_flatMap_text {ts : List Token} (h : Legible ts) (before : List Token) :
    scanAfter before (ts.flatMap text) = some (before.reverse ++ ts) := by
  induction ts generalizing before with
  | nil => rw [List.flatMap_nil, scanAfter_nil, List.append_nil]
  | cons t ts ih =>
    obtain ⟨ht, hhead, hts⟩ := legible_cons_iff.mp h
    have hrest : t.isDelimiter = true ∨ Numeral.Ends (ts.flatMap text) := by
      cases ts with
      | nil => exact Or.inr Numeral.ends_nil
      | cons u us =>
        rw [List.flatMap_cons]
        exact (hhead u rfl).imp_right fun hu => ends_of_isDelimiter hu _
    obtain ⟨c, cs, htext, hblank⟩ := exists_text_eq_cons ht
    have hnext := next?_text_append ht hrest
    rw [htext, List.cons_append] at hnext
    rw [List.flatMap_cons, htext, List.cons_append, scanAfter_cons hblank hnext, ih hts,
      List.reverse_cons, List.append_assoc, List.singleton_append]

/-- **Legible tokens are read back from their text.** -/
theorem scan_flatMap_text {ts : List Token} (h : Legible ts) : scan (ts.flatMap text) = some ts :=
  scanAfter_flatMap_text h []

end Token

end ChainedSet.Json
