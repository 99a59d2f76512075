import Mathlib.Data.List.TakeWhile
import Mathlib.Tactic.IntervalCases
import PayrollSeal.Json.Lexer

/-!
# Written tokens are read back

What is written for a token is read back as that token, if no character follows that could still
belong to it (`Lexer.run_token`). In the text of a value a number or a word is always followed by a
mark or by the end, so the text is read back as the tokens of the value (`spells_compact`).
-/

namespace PayrollSeal.Json

/-! ## Characters of numbers -/

theorem isNumberChar_of_isDigit {c : Char} (h : c.isDigit = true) : isNumberChar c = true := by
  simp only [isNumberChar, h, Bool.true_or]

namespace NumberParts

theorem isNumberChar_of_exponent? {chars : List Char} (h : (exponent? chars).isSome = true) :
    ∀ c ∈ chars, isNumberChar c = true := by
  have hdigits : ∀ negative (digits : List Char),
      (if !digits.isEmpty && digits.all Char.isDigit then some (negative, digits)
        else none : Option (Bool × List Char)).isSome = true →
      ∀ c ∈ digits, isNumberChar c = true := by
    intro negative digits h c hc
    split at h
    · next hall =>
      rw [Bool.and_eq_true] at hall
      exact isNumberChar_of_isDigit (List.all_eq_true.mp hall.2 c hc)
    · cases h
  unfold exponent? at h
  split at h
  next negative digits heq =>
  split at heq
  · obtain ⟨rfl, rfl⟩ := Prod.mk.inj heq
    exact List.forall_mem_cons.mpr ⟨rfl, hdigits _ _ h⟩
  · obtain ⟨rfl, rfl⟩ := Prod.mk.inj heq
    exact List.forall_mem_cons.mpr ⟨rfl, hdigits _ _ h⟩
  · obtain ⟨rfl, rfl⟩ := Prod.mk.inj heq
    exact hdigits _ _ h

theorem isNumberChar_of_withExponent? {parts : NumberParts} {chars : List Char}
    (h : (parts.withExponent? chars).isSome = true) : ∀ c ∈ chars, isNumberChar c = true := by
  cases chars with
  | nil => exact List.forall_mem_nil _
  | cons mark rest =>
    rw [withExponent?] at h
    split at h
    · next hmark =>
      rw [Option.isSome_map] at h
      refine List.forall_mem_cons.mpr ⟨?_, isNumberChar_of_exponent? h⟩
      rcases hmark with rfl | rfl <;> rfl
    · cases h

/-- Digits in front change nothing. -/
theorem isNumberChar_of_dropWhile {chars : List Char}
    (h : ∀ c ∈ chars.dropWhile Char.isDigit, isNumberChar c = true) :
    ∀ c ∈ chars, isNumberChar c = true := by
  intro c hc
  rw [← List.takeWhile_append_dropWhile (p := Char.isDigit) (l := chars), List.mem_append] at hc
  rcases hc with hc | hc
  · exact isNumberChar_of_isDigit (List.mem_takeWhile_imp hc)
  · exact h c hc

theorem isNumberChar_of_withFraction? {parts : NumberParts} {chars : List Char}
    (h : (parts.withFraction? chars).isSome = true) : ∀ c ∈ chars, isNumberChar c = true := by
  unfold withFraction? at h
  split at h
  · simp only at h
    split at h
    · cases h
    · exact List.forall_mem_cons.mpr
        ⟨rfl, isNumberChar_of_dropWhile (isNumberChar_of_withExponent? h)⟩
  · exact isNumberChar_of_withExponent? h

theorem isNumberChar_of_ofSigned? {negative : Bool} {chars : List Char}
    (h : (ofSigned? negative chars).isSome = true) : ∀ c ∈ chars, isNumberChar c = true := by
  simp only [ofSigned?] at h
  split at h
  · exact isNumberChar_of_dropWhile (isNumberChar_of_withFraction? h)
  · cases h

/-- A number without its sign starts with a digit. -/
theorem exists_digit_of_ofSigned? {negative : Bool} {chars : List Char}
    (h : (ofSigned? negative chars).isSome = true) :
    ∃ c rest, chars = c :: rest ∧ c.isDigit = true := by
  simp only [ofSigned?] at h
  split at h
  · next hwhole =>
    cases chars with
    | nil => exact absurd rfl hwhole.1
    | cons c rest =>
      refine ⟨c, rest, rfl, ?_⟩
      by_contra hc
      exact hwhole.1 (List.takeWhile_cons_of_neg hc)
  · cases h

end NumberParts

namespace Number

/-- A number starts with a digit or a sign and goes on with characters of numbers. -/
theorem exists_chars_eq (number : Number) :
    ∃ c rest, number.chars = c :: rest ∧ (c.isDigit || c == '-') = true ∧
      ∀ d ∈ rest, isNumberChar d = true := by
  obtain ⟨chars, h⟩ := number
  unfold NumberParts.ofChars? at h
  split at h
  · next rest => exact ⟨'-', rest, rfl, rfl, NumberParts.isNumberChar_of_ofSigned? h⟩
  · obtain ⟨c, rest, rfl, hc⟩ := NumberParts.exists_digit_of_ofSigned? h
    have hall := NumberParts.isNumberChar_of_ofSigned? h
    exact ⟨c, rest, rfl, by rw [hc, Bool.true_or], (List.forall_mem_cons.mp hall).2⟩

theorem ofChars?_chars (number : Number) : ofChars? number.chars = some number :=
  dif_pos number.isNumber

end Number

/-! ## Pieces of texts -/

/-- Characters that were kept last one first are joined in the order in which they came. -/
theorem Piece.text_map_char (chars : List Char) :
    text (chars.reverse.map char) = some (String.ofList chars) := by
  have hjoin : ∀ (read after : List Char),
      join after (read.map char) = some (read.reverse ++ after) := by
    intro read
    induction read with
    | nil => exact fun _ => rfl
    | cons c read ih =>
      intro after
      rw [List.map_cons, join, ih, List.reverse_cons, List.append_assoc, List.singleton_append]
  rw [text, hjoin, List.reverse_reverse, List.append_nil, Option.map_some]

/-- A control character is read back from its code. -/
theorem foldlM_step_code (tokens : List Token) (read : List Piece) {n : Nat} (h : n < 32) :
    ('\\' :: 'u' :: '0' :: '0' :: Hex.ofByte n.toUInt8).foldlM Lexer.step ⟨tokens, .text read⟩ =
      some ⟨tokens, .text (.char (Char.ofNat n) :: read)⟩ := by
  interval_cases n <;> rfl

/-- Inside a text a character is read back from its form. -/
theorem foldlM_step_escape (tokens : List Token) (read : List Piece) (c : Char) :
    (escape c).foldlM Lexer.step ⟨tokens, .text read⟩ =
      some ⟨tokens, .text (.char c :: read)⟩ := by
  -- two of the short forms and all codes are told by number
  have hc : Char.ofNat c.toNat = c := Char.ofNat_toNat c
  unfold escape
  split_ifs with hquote hslash hline hreturn htab hback hfeed hcontrol
  · rw [hquote]; rfl
  · rw [hslash]; rfl
  · rw [hline]; rfl
  · rw [hreturn]; rfl
  · rw [htab]; rfl
  · rw [← hc, hback]; rfl
  · rw [← hc, hfeed]; rfl
  · rw [foldlM_step_code tokens read hcontrol, hc]
  · simp only [List.foldlM_cons, Lexer.step, hquote, hslash, hcontrol, if_false]
    rfl

theorem foldlM_step_flatMap_escape (tokens : List Token) (read : List Piece) (chars : List Char) :
    (chars.flatMap escape).foldlM Lexer.step ⟨tokens, .text read⟩ =
      some ⟨tokens, .text (chars.reverse.map .char ++ read)⟩ := by
  induction chars generalizing read with
  | nil => rfl
  | cons c chars ih =>
    rw [List.flatMap_cons, List.foldlM_append, foldlM_step_escape, Option.bind_eq_bind,
      Option.bind_some, ih, List.reverse_cons, List.map_append, List.append_assoc]
    rfl

/-- A text is read back from its form, whatever follows. -/
theorem foldlM_step_quote (tokens : List Token) (text : Text) :
    (quote text).foldlM Lexer.step ⟨tokens, .nothing⟩ = some ⟨.text text :: tokens, .nothing⟩ := by
  cases text with
  | none => rfl
  | some s =>
    have hquote : quote (some s) = '"' :: (s.toList.flatMap escape ++ ['"']) := rfl
    have hopen : Lexer.step ⟨tokens, .nothing⟩ '"' = some ⟨tokens, .text []⟩ := rfl
    have hclose : ∀ read, Lexer.step ⟨tokens, .text read⟩ '"' =
        some ⟨.text (Piece.text read) :: tokens, .nothing⟩ := fun _ => rfl
    rw [hquote, List.foldlM_cons, hopen, Option.bind_eq_bind, Option.bind_some,
      List.foldlM_append, foldlM_step_flatMap_escape, Option.bind_eq_bind, Option.bind_some,
      List.append_nil, List.foldlM_cons, hclose, Piece.text_map_char, String.ofList_toList]
    rfl

/-! ## Tokens -/

/-- What may stand behind a number or a word: nothing, or a character that is part of neither. -/
def Breaks (rest : List Char) : Prop :=
  ∀ c ∈ rest.head?, isNumberChar c = false ∧ c.isAlpha = false

namespace Lexer

/-- The tokens, last one first, if all of the characters are read. -/
def run (lexer : Lexer) (chars : List Char) : Option (List Token) :=
  (chars.foldlM step lexer).bind close

theorem run_append {lexer next : Lexer} {front : List Char}
    (h : front.foldlM step lexer = some next) (rest : List Char) :
    lexer.run (front ++ rest) = next.run rest := by
  rw [run, List.foldlM_append, h]
  rfl

/-- A number or a word ends where a character follows that is not part of it. -/
theorem run_eq_of_close {lexer : Lexer} {tokens : List Token} {rest : List Char}
    (hclose : lexer.close = some tokens)
    (hstep : ∀ c ∈ rest.head?, lexer.step c = start tokens c) :
    lexer.run rest = run ⟨tokens, .nothing⟩ rest := by
  cases rest with
  | nil => exact hclose
  | cons c rest =>
    have hc : lexer.step c = step ⟨tokens, .nothing⟩ c := hstep c rfl
    rw [run, run, List.foldlM_cons, List.foldlM_cons, hc]

/-- Characters of numbers are kept until the number ends. -/
theorem foldlM_step_number (tokens : List Token) (read : List Char) {chars : List Char}
    (h : ∀ c ∈ chars, isNumberChar c = true) :
    chars.foldlM step ⟨tokens, .number read⟩ = some ⟨tokens, .number (chars.reverse ++ read)⟩ := by
  induction chars generalizing read with
  | nil => rfl
  | cons c chars ih =>
    obtain ⟨hc, hchars⟩ := List.forall_mem_cons.mp h
    have hstep : step ⟨tokens, .number read⟩ c = some ⟨tokens, .number (c :: read)⟩ := if_pos hc
    rw [List.foldlM_cons, hstep, Option.bind_eq_bind, Option.bind_some, ih _ hchars,
      List.reverse_cons, List.append_assoc, List.singleton_append]

theorem start_number (tokens : List Token) {c : Char} (h : (c.isDigit || c == '-') = true) :
    start tokens c = some ⟨tokens, .number [c]⟩ := by
  have hblank : isBlank c = false := by
    by_contra hblank
    simp only [Bool.not_eq_false, isBlank, Bool.or_eq_true, beq_iff_eq] at hblank
    rcases hblank with ((rfl | rfl) | rfl) | rfl <;> cases h
  have hquote : c ≠ '"' := by
    rintro rfl
    cases h
  simp only [start, hblank, Bool.false_eq_true, if_false, hquote, h, if_true]

/-- A number is read back from its characters. -/
theorem run_number (tokens : List Token) (number : Number) {rest : List Char}
    (hrest : Breaks rest) :
    run ⟨tokens, .nothing⟩ (number.chars ++ rest) =
      run ⟨.number number :: tokens, .nothing⟩ rest := by
  obtain ⟨c, chars, hchars, hc, hall⟩ := number.exists_chars_eq
  have hfold : number.chars.foldlM step ⟨tokens, .nothing⟩ =
      some ⟨tokens, .number number.chars.reverse⟩ := by
    have hstart : step ⟨tokens, .nothing⟩ c = some ⟨tokens, .number [c]⟩ := start_number tokens hc
    rw [hchars, List.foldlM_cons, hstart, Option.bind_eq_bind, Option.bind_some,
      foldlM_step_number tokens [c] hall, List.reverse_cons]
  have hclose : close ⟨tokens, .number number.chars.reverse⟩ = some (.number number :: tokens) := by
    simp only [close, List.reverse_reverse, Number.ofChars?_chars, Option.map_some]
  rw [run_append hfold]
  refine run_eq_of_close hclose fun d hd => ?_
  rw [step]
  simp only [(hrest d hd).1, Bool.false_eq_true, if_false, hclose, Option.bind_some]

/-- A word is read back from its characters. -/
theorem run_word (tokens : List Token) {token : Token} {read : List Char}
    (hfold : token.chars.foldlM step ⟨tokens, .nothing⟩ = some ⟨tokens, .word read⟩)
    (hclose : close ⟨tokens, .word read⟩ = some (token :: tokens)) {rest : List Char}
    (hrest : Breaks rest) :
    run ⟨tokens, .nothing⟩ (token.chars ++ rest) = run ⟨token :: tokens, .nothing⟩ rest := by
  rw [run_append hfold]
  refine run_eq_of_close hclose fun d hd => ?_
  rw [step]
  simp only [(hrest d hd).2, Bool.false_eq_true, if_false, hclose, Option.bind_some]

/-- A token is read back from its characters, if what follows cannot be part of it. -/
theorem run_token (tokens : List Token) (token : Token) {rest : List Char} (hrest : Breaks rest) :
    run ⟨tokens, .nothing⟩ (token.chars ++ rest) = run ⟨token :: tokens, .nothing⟩ rest := by
  cases token with
  | null => exact run_word tokens rfl rfl hrest
  | bool b => cases b <;> exact run_word tokens rfl rfl hrest
  | number n => exact run_number tokens n hrest
  | text t => exact run_append (foldlM_step_quote tokens t) rest
  | _ => exact run_append rfl rest

end Lexer

/-! ## Values -/

theorem breaks_cons {c : Char} (hnumber : isNumberChar c = false) (halpha : c.isAlpha = false)
    (rest : List Char) : Breaks (c :: rest) := by
  intro d hd
  cases hd
  exact ⟨hnumber, halpha⟩

/-- An item is followed by a comma or by the end of its array. -/
theorem breaks_tokensOfItems (items : List Json) (rest : List Char) :
    Breaks ((tokensOfItems items).flatMap Token.chars ++ rest) := by
  cases items <;> exact breaks_cons rfl rfl _

/-- A member is followed by a comma or by the end of its object. -/
theorem breaks_tokensOfMembers (members : List (Text × Json)) (rest : List Char) :
    Breaks ((tokensOfMembers members).flatMap Token.chars ++ rest) := by
  cases members <;> exact breaks_cons rfl rfl _

namespace Lexer

/-- A name and its colon are read back, whatever follows. -/
theorem run_name (before : List Token) (name : Text) (rest : List Char) :
    run ⟨before, .nothing⟩ ((Token.text name).chars ++ (Token.colon.chars ++ rest)) =
      run ⟨.colon :: .text name :: before, .nothing⟩ rest := by
  calc
    _ = run ⟨.text name :: before, .nothing⟩ (Token.colon.chars ++ rest) :=
      run_append (foldlM_step_quote before name) _
    _ = _ := run_append rfl rest

mutual

/-- The tokens of a value are read back from its text. -/
theorem run_tokens (before : List Token) {rest : List Char} (hrest : Breaks rest) :
    ∀ value : Json, run ⟨before, .nothing⟩ (value.tokens.flatMap Token.chars ++ rest) =
      run ⟨value.tokens.reverse ++ before, .nothing⟩ rest
  | .null => run_token before .null hrest
  | .bool b => by
    rw [Json.tokens, List.flatMap_singleton]
    exact run_token before (.bool b) hrest
  | .number n => by
    rw [Json.tokens, List.flatMap_singleton]
    exact run_token before (.number n) hrest
  | .text t => by
    rw [Json.tokens, List.flatMap_singleton]
    exact run_token before (.text t) hrest
  | .array [] => rfl
  | .array (item :: items) => by
    simp only [Json.tokens, List.flatMap_cons, List.flatMap_append, List.append_assoc,
      List.reverse_cons, List.reverse_append, List.singleton_append]
    -- what follows the item is a comma or a bracket, so a number or a word ends there
    rw [run_append rfl, run_tokens _ (breaks_tokensOfItems items rest) item, run_tokensOfItems]
  | .object [] => rfl
  | .object ((name, value) :: members) => by
    simp only [Json.tokens, List.flatMap_cons, List.flatMap_append, List.append_assoc,
      List.reverse_cons, List.reverse_append, List.singleton_append]
    rw [run_append rfl, run_name,
      run_tokens _ (breaks_tokensOfMembers members rest) value, run_tokensOfMembers]
    rfl

/-- The items after the first are read back. -/
theorem run_tokensOfItems (before : List Token) (rest : List Char) :
    ∀ items : List Json,
      run ⟨before, .nothing⟩ ((tokensOfItems items).flatMap Token.chars ++ rest) =
        run ⟨(tokensOfItems items).reverse ++ before, .nothing⟩ rest
  | [] => rfl
  | item :: items => by
    simp only [tokensOfItems, List.flatMap_cons, List.flatMap_append, List.append_assoc,
      List.reverse_cons, List.reverse_append, List.singleton_append]
    rw [run_append rfl, run_tokens _ (breaks_tokensOfItems items rest) item, run_tokensOfItems]

/-- The members after the first are read back. -/
theorem run_tokensOfMembers (before : List Token) (rest : List Char) :
    ∀ members : List (Text × Json),
      run ⟨before, .nothing⟩ ((tokensOfMembers members).flatMap Token.chars ++ rest) =
        run ⟨(tokensOfMembers members).reverse ++ before, .nothing⟩ rest
  | [] => rfl
  | (name, value) :: members => by
    simp only [tokensOfMembers, List.flatMap_cons, List.flatMap_append, List.append_assoc,
      List.reverse_cons, List.reverse_append, List.singleton_append]
    rw [run_append rfl, run_name,
      run_tokens _ (breaks_tokensOfMembers members rest) value, run_tokensOfMembers]
    rfl

end

end Lexer

/-- A text spells a value: its tokens are those of the value, whatever stands between them and
however characters are escaped. -/
def Spells (text : String) (value : Json) : Prop :=
  lex? text = some value.tokens

/-- The text without blanks spells its value. -/
theorem spells_compact (value : Json) : Spells value.compact value := by
  have hrun := @Lexer.run_tokens [] [] (by intro c hc; cases hc) value
  rw [List.append_nil, List.append_nil] at hrun
  have hlex : lex? value.compact =
      (Lexer.run ⟨[], .nothing⟩ (value.tokens.flatMap Token.chars)).map List.reverse := by
    rw [lex?, compact, String.toList_ofList]
    rfl
  rw [Spells, hlex, hrun]
  show some value.tokens.reverse.reverse = _
  rw [List.reverse_reverse]

end PayrollSeal.Json
