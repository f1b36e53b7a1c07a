import SchemaForge.Proofs.Literals
import SchemaForge.Proofs.Patterns

/-! # Literal tokens

String literals by their grammar, and by the pattern that validation takes for one. A text is written as
the only literal that what is written starts with, whatever follows it, and the pattern ends where a
literal does.
-/

namespace SchemaForge.Rust.Literal

open Text

/-! ## The grammar of literals -/

/-- What stands between the marks of a literal, and the text that it stands for. -/
inductive Body : List Char → List Char → Prop
  | nil : Body [] []
  | escape {letter c : Char} {source text : List Char} (hletter : unescape? letter = some c)
      (h : Body source text) : Body ('\\' :: letter :: source) (c :: text)
  | plain {c : Char} {source text : List Char} (hmark : c ≠ '\x22') (hbackslash : c ≠ '\\')
      (hreturn : c ≠ '\r') (h : Body source text) : Body (c :: source) (c :: text)

/-- The lexeme is a string literal, and stands for the text. -/
def Token (lexeme text : List Char) : Prop :=
  ∃ body, lexeme = '\x22' :: body ++ ['\x22'] ∧ Body body text

theorem readBody?_cons {c : Char} (hmark : c ≠ '\x22') (hbackslash : c ≠ '\\') (hreturn : c ≠ '\r')
    (rest : List Char) :
    readBody? (c :: rest) = (readBody? rest).map fun read => (c :: read.1, read.2) := by
  rw [readBody?, if_neg hreturn]
  · exact hmark
  · exact fun h _ => hbackslash h
  · exact fun _ _ h _ => hbackslash h

/-- A literal is read, whatever follows it. -/
theorem readBody?_of_body {body text : List Char} (h : Body body text) (rest : List Char) :
    readBody? (body ++ '\x22' :: rest) = some (text, rest) := by
  induction h with
  | nil => rfl
  | escape hletter _ ih =>
    rw [List.cons_append, List.cons_append, readBody?, hletter, Option.bind_some, ih, Option.map_some]
  | plain hmark hbackslash hreturn _ ih =>
    rw [List.cons_append, readBody?_cons hmark hbackslash hreturn, ih, Option.map_some]

/-- Only a literal is read. -/
theorem exists_body_of_readBody? {source text rest : List Char}
    (h : readBody? source = some (text, rest)) :
    ∃ body, source = body ++ '\x22' :: rest ∧ Body body text := by
  fun_induction readBody? source generalizing text with
  | case1 => cases h
  | case2 =>
    cases h
    exact ⟨[], rfl, .nil⟩
  | case3 => cases h
  | case4 letter source ih =>
    obtain ⟨c, hletter, hmore⟩ := Option.bind_eq_some_iff.mp h
    obtain ⟨read, hread, heq⟩ := Option.map_eq_some_iff.mp hmore
    cases heq
    obtain ⟨body, rfl, hbody⟩ := ih hread
    exact ⟨'\\' :: letter :: body, rfl, .escape hletter hbody⟩
  | case5 => cases h
  | case6 c source hmark hlast hescape hreturn ih =>
    obtain ⟨read, hread, heq⟩ := Option.map_eq_some_iff.mp h
    cases heq
    obtain ⟨body, rfl, hbody⟩ := ih hread
    have hbackslash : c ≠ '\\' := by
      intro hc
      cases body <;> exact hescape _ _ hc rfl
    exact ⟨c :: body, rfl, .plain hmark hbackslash hreturn hbody⟩

/-- A source is read as a text when it starts with a literal for it. -/
theorem read?_eq_some_iff {source text rest : List Char} :
    read? source = some (text, rest) ↔ ∃ lexeme, source = lexeme ++ rest ∧ Token lexeme text := by
  constructor
  · intro h
    unfold read? at h
    split at h
    · obtain ⟨body, rfl, hbody⟩ := exists_body_of_readBody? h
      exact ⟨'\x22' :: body ++ ['\x22'], by simp, body, rfl, hbody⟩
    · cases h
  · rintro ⟨_, rfl, body, rfl, hbody⟩
    rw [List.append_assoc]
    exact readBody?_of_body hbody rest

/-! ## The pattern of literals -/

/-- A character of a literal: any but a line feed behind a backslash, or one that is no mark. -/
def characterPattern : Pattern :=
  .choice (.sequence (.one (· = '\\')) (.one (· ≠ '\n'))) (.one fun c => c ≠ '\x22' && c ≠ '\\')

/-- What validation takes for the rest of a literal, its opening mark being passed. -/
def bodyPattern : Pattern := .sequence (.many characterPattern) (.one (· = '\x22'))

/-- What validation takes for a literal. -/
def literalPattern : Pattern := .sequence (.one (· = '\x22')) bodyPattern

theorem consumes_characterPattern : characterPattern.Consumes :=
  ((Pattern.consumes_one _).sequence (Pattern.consumes_one _)).choice (Pattern.consumes_one _)

theorem rests_characterPattern_escape (c : Char) (rest : List Char) :
    characterPattern.rests ('\\' :: c :: rest) = if c = '\n' then [] else [rest] := by
  by_cases hc : c = '\n' <;> simp [characterPattern, Pattern.rests, hc]

theorem rests_characterPattern_cons {c : Char} (hbackslash : c ≠ '\\') (hmark : c ≠ '\x22')
    (rest : List Char) : characterPattern.rests (c :: rest) = [rest] := by
  simp [characterPattern, Pattern.rests, hbackslash, hmark]

/-- There is at most one way to match the rest of a literal, and the search for its end finds it. -/
theorem rests_bodyPattern (text : List Char) :
    bodyPattern.rests text = (afterClosing? text).toList := by
  have hround : ∀ source : List Char, bodyPattern.rests source
      = (characterPattern.rests source).flatMap bodyPattern.rests
        ++ (Pattern.one (· = '\x22')).rests source :=
    Pattern.rests_sequence_many consumes_characterPattern _
  rw [hround]
  fun_induction afterClosing? text with
  | case1 => rfl
  | case2 rest => rfl
  | case3 => rfl
  | case4 rest => rfl
  | case5 c rest hc ih =>
    rw [rests_characterPattern_escape, if_neg hc, List.flatMap_singleton, hround, ih]
    exact List.append_nil _
  | case6 c rest hmark hlast hescape ih =>
    have hbackslash : c ≠ '\\' := by
      intro hc
      cases rest with
      | nil => exact hlast hc rfl
      | cons letter more => exact hescape letter more hc rfl
    have hnone : (Pattern.one (· = '\x22')).rests (c :: rest) = [] := by
      simpa [Pattern.rests] using hmark
    rw [rests_characterPattern_cons hbackslash hmark, List.flatMap_singleton, hround, ih, hnone,
      List.append_nil]

/-- Validation takes for a literal what its search passes over, and nothing else. -/
theorem rests_literalPattern (body : List Char) :
    literalPattern.rests ('\x22' :: body) = (afterClosing? body).toList := by
  rw [← rests_bodyPattern]
  exact List.flatMap_singleton ..

/-- Where a literal ends for the compiler, it ends for validation. -/
theorem afterClosing?_of_body {body text : List Char} (h : Body body text) (rest : List Char) :
    afterClosing? (body ++ '\x22' :: rest) = some rest := by
  induction h with
  | nil => rfl
  | @escape letter c source text hletter _ ih =>
    have hfeed : letter ≠ '\n' := by
      rintro rfl
      cases hletter
    rw [List.cons_append, List.cons_append, afterClosing?, if_neg hfeed, ih]
  | plain hmark hbackslash _ _ ih =>
    rw [List.cons_append, afterClosing?_cons hbackslash hmark, ih]

theorem rests_literalPattern_of_token {lexeme text : List Char} (h : Token lexeme text)
    (rest : List Char) : literalPattern.rests (lexeme ++ rest) = [rest] := by
  obtain ⟨body, rfl, hbody⟩ := h
  rw [List.append_assoc, List.cons_append, rests_literalPattern]
  exact congrArg Option.toList (afterClosing?_of_body hbody rest)

theorem token_encode (text : List Char) : Token (encode text) text := by
  have hread := read?_encode_append text []
  obtain ⟨lexeme, hlexeme, htoken⟩ := read?_eq_some_iff.mp hread
  rw [List.append_nil, List.append_nil] at hlexeme
  rwa [hlexeme]

/-- A text is written as a literal without line breaks, which is the only literal that a source starts
with when it starts with what is written, and the only part of it that validation can take for one. The
literal stands for that text and is the literal of no other. Every literal ends where validation takes it
to end. -/
theorem encode_only_token (text : List Char) :
    (∀ rest lexeme value, lexeme <+: encode text ++ rest ∧ Token lexeme value ↔
      lexeme = encode text ∧ value = text) ∧
    (∀ c ∈ encode text, c ≠ '\n' ∧ c ≠ '\r') ∧
    (∀ rest, literalPattern.rests (encode text ++ rest) = [rest]) ∧
    (∀ other, encode other = encode text → other = text) ∧
    ∀ lexeme value rest, Token lexeme value → literalPattern.rests (lexeme ++ rest) = [rest] := by
  refine ⟨fun rest lexeme value => ?_, fun c => not_lineBreak_of_mem_encode,
    rests_literalPattern_of_token (token_encode text), fun other hsame => ?_,
    fun lexeme value rest htoken => rests_literalPattern_of_token htoken rest⟩
  · constructor
    · rintro ⟨⟨after, hsource⟩, htoken⟩
      have hread : read? (encode text ++ rest) = some (value, after) :=
        read?_eq_some_iff.mpr ⟨lexeme, hsource.symm, htoken⟩
      rw [read?_encode_append, Option.some.injEq, Prod.mk.injEq] at hread
      obtain ⟨rfl, rfl⟩ := hread
      exact ⟨List.append_cancel_right hsource, rfl⟩
    · rintro ⟨rfl, rfl⟩
      exact ⟨List.prefix_append _ rest, token_encode value⟩
  · have hread := read?_encode_append other []
    rw [hsame, read?_encode_append] at hread
    cases hread
    rfl

end SchemaForge.Rust.Literal
