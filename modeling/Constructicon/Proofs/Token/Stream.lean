import Constructicon.Proofs.Token.Line

/-! Token streams. The bytes of a stream fall into lines at the newlines, and every line is read by
itself: one that is the encoding of a text gives the token of the text, any other one error. Since
no line has a newline in it, neither has a token that was read, so tokens that are written one to a
line are read again as they were. -/
namespace Constructicon

namespace Text

/-- The bytes that encode a text. -/
def utf8 (text : String) : List UInt8 :=
  text.toUTF8.data.toList

theorem utf8_eq (text : String) : utf8 text = text.toList.flatMap String.utf8EncodeChar := by
  rw [utf8, String.toUTF8_eq_toByteArray, ← String.utf8Encode_toList]
  exact congrArg Array.toList List.data_toByteArray

/-- A newline is one byte, and no other character has that byte in its encoding. -/
theorem newline_mem_encodeChar (c : Char) : 10 ∈ String.utf8EncodeChar c ↔ c = '\n' := by
  constructor
  · intro member
    have byte : ∀ n : Nat, (10 : UInt8) = UInt8.ofNat n ↔ n % 256 = 10 := by
      intro n
      rw [← UInt8.toNat_inj, UInt8.toNat_ofNat', eq_comm]
      rfl
    -- A byte of a longer encoding has its highest bit set.
    have code : c.val.toNat = 10 := by
      simp only [String.utf8EncodeChar] at member
      split_ifs at member <;>
        simp only [List.mem_cons, List.not_mem_nil, or_false, byte] at member <;> omega
    exact Char.ext (UInt32.toNat_inj.mp code)
  · rintro rfl
    decide

theorem newline_mem_utf8 (text : String) : 10 ∈ utf8 text ↔ '\n' ∈ text.toList := by
  rw [utf8_eq, List.mem_flatMap]
  constructor
  · rintro ⟨c, member, byte⟩
    exact (newline_mem_encodeChar c).mp byte ▸ member
  · intro member
    exact ⟨'\n', member, (newline_mem_encodeChar _).mpr rfl⟩

end Text

namespace Token
open Text

/-- The lines of some tokens, each with a newline after it. -/
def write (tokens : List Token) : List UInt8 :=
  tokens.flatMap fun token => utf8 token.line ++ [10]

/-- The tokens of a stream without its errors. -/
def readable (results : List (Except Unreadable Token)) : List Token :=
  results.filterMap Except.toOption

variable {bytes piece : List UInt8} {text : String}

theorem decode_utf8 (text : String) : decode (utf8 text) = some text := by
  have same : (⟨(utf8 text).toArray⟩ : ByteArray) = text.toByteArray := by
    rw [utf8, String.toUTF8_eq_toByteArray, Array.toArray_toList]
  rw [decode, same, String.fromUTF8?, dif_pos text.isValidUTF8]
  rfl

theorem decode_eq_some : decode bytes = some text ↔ utf8 text = bytes := by
  constructor
  · intro decoded
    rw [decode, String.fromUTF8?] at decoded
    split at decoded
    · cases decoded
      rfl
    · cases decoded
  · rintro rfl
    exact decode_utf8 text

theorem decode_eq_none : decode bytes = none ↔ ∀ text, utf8 text ≠ bytes := by
  simp only [Option.eq_none_iff_forall_ne_some, ne_eq, decode_eq_some]

theorem lines_cons (byte : UInt8) {first : List UInt8} {rest : List (List UInt8)}
    (known : lines bytes = first :: rest) :
    lines (byte :: bytes) = if byte = 10 then [] :: first :: rest else (byte :: first) :: rest := by
  rw [lines] at known
  rw [lines, List.foldr_cons, known]

theorem exists_lines (bytes : List UInt8) : ∃ first rest, lines bytes = first :: rest := by
  induction bytes with
  | nil => exact ⟨[], [], rfl⟩
  | cons byte bytes ih =>
    obtain ⟨first, rest, known⟩ := ih
    rw [lines_cons byte known]
    split
    · exact ⟨_, _, rfl⟩
    · exact ⟨_, _, rfl⟩

/-- A newline ends the line before it. -/
theorem lines_append (before after : List UInt8) :
    lines (before ++ 10 :: after) = lines before ++ lines after := by
  induction before with
  | nil =>
    obtain ⟨first, rest, known⟩ := exists_lines after
    rw [List.nil_append, lines_cons 10 known, if_pos rfl, known]
    rfl
  | cons byte before ih =>
    obtain ⟨first, rest, known⟩ := exists_lines before
    rw [known, List.cons_append] at ih
    rw [List.cons_append, lines_cons byte ih, lines_cons byte known]
    split <;> rfl

theorem lines_piece (single : 10 ∉ piece) : lines piece = [piece] := by
  induction piece with
  | nil => rfl
  | cons byte piece ih =>
    rw [List.mem_cons, not_or] at single
    rw [lines_cons byte (ih single.2), if_neg (Ne.symm single.1)]

theorem stream_append (before after : List UInt8) :
    stream (before ++ 10 :: after) = stream before ++ stream after := by
  rw [stream, lines_append, List.filterMap_append]
  rfl

theorem stream_piece (single : 10 ∉ piece) : stream piece = (ofBytes piece).toList := by
  rw [stream, lines_piece single]
  cases known : ofBytes piece <;> simp [known]

theorem stream_text (single : 10 ∉ utf8 text) :
    stream (utf8 text) = ((ofLine text).map .ok).toList := by
  rw [stream_piece single, ofBytes, decode_utf8]

theorem stream_unreadable (single : 10 ∉ piece) (foreign : ∀ text, utf8 text ≠ piece) :
    stream piece = [.error .notUtf8] := by
  rw [stream_piece single, ofBytes, decode_eq_none.mpr foreign]
  rfl

theorem stream_nil : stream [] = [] := by
  have none : ofLine "" = none := by decide
  have empty : utf8 "" = [] := rfl
  rw [← empty, stream_text (by simp [empty]), none]
  rfl

/-- Lines that follow one another are read one by one. -/
theorem stream_intercalate (pieces : List (List UInt8)) :
    stream ([10].intercalate pieces) = pieces.flatMap stream := by
  induction pieces with
  | nil => exact stream_nil
  | cons piece pieces ih =>
    cases pieces with
    | nil => simp
    | cons second later =>
      have split : [10].intercalate (piece :: second :: later) =
          piece ++ 10 :: [10].intercalate (second :: later) := by
        simp [List.intercalate]
      rw [split, stream_append, ih, List.flatMap_cons (x := piece)]

theorem newline_free (bytes : List UInt8) : ∀ piece ∈ lines bytes, 10 ∉ piece := by
  induction bytes with
  | nil => simp [lines]
  | cons byte bytes ih =>
    obtain ⟨first, rest, known⟩ := exists_lines bytes
    rw [known] at ih
    rw [lines_cons byte known]
    by_cases newline : byte = 10
    · rw [if_pos newline]
      exact List.forall_mem_cons.mpr ⟨List.not_mem_nil, ih⟩
    · obtain ⟨free, later⟩ := List.forall_mem_cons.mp ih
      rw [if_neg newline]
      refine List.forall_mem_cons.mpr ⟨?_, later⟩
      rw [List.mem_cons, not_or]
      exact ⟨Ne.symm newline, free⟩

theorem intercalate_lines (bytes : List UInt8) : [10].intercalate (lines bytes) = bytes := by
  induction bytes with
  | nil => rfl
  | cons byte bytes ih =>
    obtain ⟨first, rest, known⟩ := exists_lines bytes
    rw [known] at ih
    rw [lines_cons byte known, ← ih]
    split
    · rename_i newline
      simp [List.intercalate, newline]
    · cases rest <;> simp [List.intercalate]

/-- What a token is written with comes from the line it was read from. -/
theorem mem_line {line : String} {token : Token} {c : Char} (read : ofLine line = some token)
    (member : c ∈ token.line.toList) : c ∈ line.toList ∨ c = ':' := by
  have trims := trims_trim line.toList
  have spells := (ofLine_eq_some trims).mp read
  rw [toList_line, List.mem_append, List.mem_cons] at member
  rcases member with typed | colon | valued
  · exact .inl (trims.subset (spells.typed.subset typed))
  · exact .inr colon
  · have rest := pastColon_subset _ (spells.value.subset valued)
    exact .inl (trims.subset (List.mem_of_mem_drop rest))

theorem mem_readable {token : Token} : token ∈ readable (stream bytes) ↔
    ∃ text, utf8 text ∈ lines bytes ∧ ofLine text = some token := by
  constructor
  · intro member
    obtain ⟨result, found, kept⟩ := List.mem_filterMap.mp member
    obtain ⟨piece, within, read⟩ := List.mem_filterMap.mp found
    cases decoded : decode piece with
    | none =>
      rw [ofBytes, decoded] at read
      cases read
      cases kept
    | some text =>
      rw [ofBytes, decoded] at read
      obtain ⟨other, parsed, rfl⟩ := Option.map_eq_some_iff.mp read
      cases kept
      exact ⟨text, decode_eq_some.mp decoded ▸ within, parsed⟩
  · rintro ⟨text, within, parsed⟩
    refine List.mem_filterMap.mpr ⟨.ok token, List.mem_filterMap.mpr ⟨_, within, ?_⟩, rfl⟩
    rw [ofBytes, decode_utf8]
    exact congrArg (Option.map Except.ok) parsed

/-- Tokens written one to a line are read as they were, if each is from its own line. -/
theorem stream_write {tokens : List Token}
    (fits : ∀ token ∈ tokens, 10 ∉ utf8 token.line ∧ ofLine token.line = some token) :
    stream (write tokens) = tokens.map .ok := by
  induction tokens with
  | nil => exact stream_nil
  | cons token tokens ih =>
    obtain ⟨⟨single, again⟩, later⟩ := List.forall_mem_cons.mp fits
    have split : write (token :: tokens) = utf8 token.line ++ 10 :: write tokens := by
      simp [write]
    rw [split, stream_append, stream_text single, again, ih later]
    rfl

theorem readable_fits {token : Token} (member : token ∈ readable (stream bytes)) :
    10 ∉ utf8 token.line ∧ ofLine token.line = some token := by
  obtain ⟨text, within, read⟩ := mem_readable.mp member
  refine ⟨?_, ofLine_line read⟩
  rw [newline_mem_utf8]
  intro newline
  rcases mem_line read newline with inside | colon
  · exact newline_free bytes _ within ((newline_mem_utf8 text).mpr inside)
  · exact absurd colon (by decide)

/-- The lines that hold a token, the token each holds, and what a stream of lines is read as. A
line holds a token when, without the blanks at its ends, it is neither empty nor begins with a
number sign or a colon. A token that was read is read from the line it is written as, and all the
tokens that were read are read again from the bytes they are written as. A newline parts a stream
in two that are read apart, so that a line without encoded text is one error and no more. -/
theorem reads_exactly :
    (∀ line : String, (∀ text, Trims line.toList text ↔ trim line.toList = text) ∧
      ((ofLine line).isSome = true ↔
        ∃ first rest, trim line.toList = first :: rest ∧ first ≠ '#' ∧ first ≠ ':') ∧
      (∀ token, ofLine line = some token ↔ Spells (trim line.toList) token) ∧
      ofLine line = ofCut line) ∧
    (∀ line token, ofLine line = some token →
      token.elementType ≠ "" ∧ Solid token.elementType.toList ∧ ofLine token.line = some token) ∧
    (∀ bytes, stream (write (readable (stream bytes))) = (readable (stream bytes)).map .ok) ∧
    (∀ before after, stream (before ++ 10 :: after) = stream (before ++ [10]) ++ stream after) ∧
    (∀ bytes, ∃ pieces, pieces ≠ [] ∧ (∀ piece ∈ pieces, 10 ∉ piece) ∧
      [10].intercalate pieces = bytes ∧ stream bytes = pieces.flatMap stream) ∧
    ∀ piece, 10 ∉ piece →
      (∀ text, utf8 text = piece → stream piece = ((ofLine text).map .ok).toList) ∧
      ((∀ text, utf8 text ≠ piece) → stream piece = [.error .notUtf8]) := by
  refine ⟨?grammar, ?again, ?written, ?parted, ?pieces, ?piece⟩
  case grammar =>
    intro line
    have trims := trims_trim line.toList
    exact ⟨fun _ => trims_iff, ofLine_isSome trims, fun token => ofLine_eq_some trims,
      ofLine_eq_ofCut line⟩
  case again =>
    intro line token read
    have trims := trims_trim line.toList
    have spells := (ofLine_eq_some trims).mp read
    refine ⟨?_, spells.solid, ofLine_line read⟩
    obtain ⟨first, more, type, _⟩ := spells.type_cons trims
    rintro empty
    rw [empty] at type
    cases type
  case written =>
    intro bytes
    exact stream_write fun token member => readable_fits member
  case parted =>
    intro before after
    rw [stream_append, stream_append, stream_nil, List.append_nil]
  case pieces =>
    intro bytes
    obtain ⟨first, rest, known⟩ := exists_lines bytes
    have whole := intercalate_lines bytes
    refine ⟨lines bytes, by simp [known], newline_free bytes, whole, ?_⟩
    rw [← stream_intercalate, whole]
  case piece =>
    intro piece single
    constructor
    · rintro text rfl
      exact stream_text single
    · exact stream_unreadable single

theorem reads_exactly_signs : ofLine "SYM:: \r" = some ⟨"SYM", ":"⟩ ∧
    ofLine (Token.line ⟨"SYM", ":"⟩) = some ⟨"SYM", ":"⟩ ∧ stream [255] = [.error .notUtf8] ∧
    stream (utf8 "N a:b") = [.ok ⟨"N", "a:b"⟩] := by
  have read : ofLine "SYM:: \r" = some ⟨"SYM", ":"⟩ := by decide
  obtain ⟨_, again, _, _, _, piece⟩ := reads_exactly
  have foreign : decode [255] = none := by decide
  have held : ofLine "N a:b" = some ⟨"N", "a:b"⟩ := by decide
  refine ⟨read, (again _ _ read).2.2, (piece [255] (by decide)).2 (decode_eq_none.mp foreign), ?_⟩
  rw [(piece (utf8 "N a:b") (by decide)).1 _ rfl, held]
  rfl

end Token

end Constructicon
