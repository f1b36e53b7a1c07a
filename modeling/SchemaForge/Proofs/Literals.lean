import SchemaForge.Rust.Literal

/-! # Reading string literals

How a compiler reads a string literal, beside the search for the end of one that validation makes.
A text that is written as a literal is read back from it whatever follows, and the search ends
where the reading does.
-/

namespace SchemaForge.Rust.Literal

/-- The character that an escape stands for, by its letter. -/
def unescape? (letter : Char) : Option Char :=
  if letter = '\\' then some '\\'
  else if letter = '\x22' then some '\x22'
  else if letter = 'n' then some '\n'
  else if letter = 'r' then some '\r'
  else if letter = 't' then some '\t'
  else if letter = '0' then some '\x00'
  else none

/-- Reads a literal whose opening mark was just passed: the text that it stands for, and what
follows it. A carriage return has to be escaped. -/
def readBody? : List Char → Option (List Char × List Char)
  | [] => none
  | '\x22' :: rest => some ([], rest)
  | ['\\'] => none
  | '\\' :: letter :: rest =>
    (unescape? letter).bind fun c =>
      (readBody? rest).map fun read => (c :: read.1, read.2)
  | c :: rest =>
    if c = '\r' then none else (readBody? rest).map fun read => (c :: read.1, read.2)

/-- Reads the literal that a source text starts with. -/
def read? : List Char → Option (List Char × List Char)
  | '\x22' :: rest => readBody? rest
  | _ => none

/-- A character is written as an escape that stands for it, or else as itself. -/
theorem escapeChar_cases (c : Char) :
    (∃ letter, escapeChar c = ['\\', letter] ∧ unescape? letter = some c ∧ letter ≠ '\n' ∧
        letter ≠ '\r') ∨
      escapeChar c = [c] ∧ c ≠ '\\' ∧ c ≠ '\x22' ∧ c ≠ '\n' ∧ c ≠ '\r' := by
  by_cases hescaped : c ∈ ['\\', '\x22', '\n', '\r', '\t', '\x00']
  · left
    simp only [List.mem_cons, List.not_mem_nil, or_false] at hescaped
    rcases hescaped with rfl | rfl | rfl | rfl | rfl | rfl
    · exact ⟨'\\', by decide⟩
    · exact ⟨'\x22', by decide⟩
    · exact ⟨'n', by decide⟩
    · exact ⟨'r', by decide⟩
    · exact ⟨'t', by decide⟩
    · exact ⟨'0', by decide⟩
  · right
    simp only [List.mem_cons, List.not_mem_nil, or_false, not_or] at hescaped
    obtain ⟨hbackslash, hmark, hfeed, hreturn, htab, hnull⟩ := hescaped
    have hletter : escapeLetter? c = none := by
      simp [escapeLetter?, hbackslash, hmark, hfeed, hreturn, htab, hnull]
    exact ⟨by rw [escapeChar, hletter], hbackslash, hmark, hfeed, hreturn⟩

/-- One character is read back. -/
theorem readBody?_escapeChar_append (c : Char) (rest : List Char) :
    readBody? (escapeChar c ++ rest)
      = (readBody? rest).map fun read => (c :: read.1, read.2) := by
  rcases escapeChar_cases c with ⟨letter, hescape, hletter, -⟩ | ⟨hsame, hbackslash, hmark, -, hreturn⟩
  · rw [hescape]
    show readBody? ('\\' :: letter :: rest) = _
    rw [readBody?, hletter, Option.bind_some]
  · rw [hsame]
    show readBody? (c :: rest) = _
    rw [readBody?, if_neg hreturn]
    · exact fun h => hmark h
    · exact fun h _ => hbackslash h
    · exact fun letter more h _ => hbackslash h

theorem readBody?_append (text rest : List Char) :
    readBody? (text.flatMap escapeChar ++ '\x22' :: rest) = some (text, rest) := by
  induction text with
  | nil => rfl
  | cons c more ih =>
    rw [List.flatMap_cons, List.append_assoc, readBody?_escapeChar_append, ih, Option.map_some]

theorem encode_append (text rest : List Char) :
    encode text ++ rest = '\x22' :: (text.flatMap escapeChar ++ '\x22' :: rest) := by
  rw [encode, List.append_assoc]
  rfl

/-- A text written as a literal is read back, whatever follows the literal. -/
theorem read?_encode_append (text rest : List Char) :
    read? (encode text ++ rest) = some (text, rest) := by
  rw [encode_append]
  exact readBody?_append text rest

/-- The search for the end of a literal passes over a character without a meaning of its own. -/
theorem afterClosing?_cons {c : Char} (hbackslash : c ≠ '\\') (hmark : c ≠ '\x22')
    (rest : List Char) : afterClosing? (c :: rest) = afterClosing? rest := by
  rw [afterClosing?]
  · exact fun h => hmark h
  · exact fun h _ => hbackslash h
  · exact fun _ _ h _ => hbackslash h

theorem afterClosing?_escapeChar_append (c : Char) (rest : List Char) :
    afterClosing? (escapeChar c ++ rest) = afterClosing? rest := by
  rcases escapeChar_cases c with ⟨letter, hescape, -, hfeed, -⟩ | ⟨hsame, hbackslash, hmark, -⟩
  · rw [hescape]
    show afterClosing? ('\\' :: letter :: rest) = _
    rw [afterClosing?, if_neg hfeed]
  · rw [hsame]
    exact afterClosing?_cons hbackslash hmark rest

/-- The search for the end of a written literal finds it. -/
theorem afterClosing?_append (text rest : List Char) :
    afterClosing? (text.flatMap escapeChar ++ '\x22' :: rest) = some rest := by
  induction text with
  | nil => rfl
  | cons c more ih =>
    rw [List.flatMap_cons, List.append_assoc, afterClosing?_escapeChar_append, ih]

/-- A search that finds an end does not look at what follows it. -/
theorem afterClosing?_append_of_eq_some {body after : List Char}
    (h : afterClosing? body = some after) (rest : List Char) :
    afterClosing? (body ++ rest) = some (after ++ rest) := by
  fun_induction afterClosing? body with
  | case1 => cases h
  | case2 more =>
    obtain rfl := Option.some.inj h
    rfl
  | case3 => cases h
  | case4 more => cases h
  | case5 c more hc ih =>
    show afterClosing? ('\\' :: c :: (more ++ rest)) = _
    rw [afterClosing?, if_neg hc, ih h]
  | case6 c more hmark hlast hescape ih =>
    have hbackslash : c ≠ '\\' := by
      intro hc
      cases more with
      | nil => exact hlast hc rfl
      | cons letter more => exact hescape letter more hc rfl
    show afterClosing? (c :: (more ++ rest)) = _
    rw [afterClosing?_cons hbackslash (fun hc => hmark hc), ih h]

/-- What follows a literal is the end of the text. -/
theorem suffix_of_afterClosing? {body after : List Char} (h : afterClosing? body = some after) :
    after <:+ body := by
  fun_induction afterClosing? body with
  | case1 => cases h
  | case2 rest =>
    rw [Option.some.injEq] at h
    rw [← h]
    exact List.suffix_cons _ _
  | case3 => cases h
  | case4 rest => cases h
  | case5 c rest _ ih => exact ((ih h).trans (List.suffix_cons _ _)).trans (List.suffix_cons _ _)
  | case6 c rest _ _ _ ih => exact (ih h).trans (List.suffix_cons _ _)

/-- A written literal has no line break. -/
theorem not_lineBreak_of_mem_encode {text : List Char} {c : Char} (h : c ∈ encode text) :
    c ≠ '\n' ∧ c ≠ '\r' := by
  have hmark : '\x22' ≠ '\n' ∧ '\x22' ≠ '\r' := by decide
  rw [encode, List.mem_append, List.mem_cons, List.mem_singleton] at h
  rcases h with (rfl | hbody) | rfl
  · exact hmark
  · obtain ⟨d, -, hc⟩ := List.mem_flatMap.mp hbody
    rcases escapeChar_cases d with ⟨letter, hescape, -, hfeed, hreturn⟩ | ⟨hsame, -, -, hline⟩
    · rw [hescape, List.mem_cons, List.mem_singleton] at hc
      rcases hc with rfl | rfl
      · decide
      · exact ⟨hfeed, hreturn⟩
    · rw [hsame, List.mem_singleton] at hc
      rwa [hc]
  · exact hmark

end SchemaForge.Rust.Literal
