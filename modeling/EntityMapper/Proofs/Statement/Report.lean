import Mathlib.Data.String.Basic
import EntityMapper.Proofs.Json.RoundTrip
import EntityMapper.Proofs.Statement.Blame
import EntityMapper.Proofs.Text.Lowercase

/-!
# The report on a syntax error

The report on a command of one line has the message on a line of its own, since
what a message quotes is escaped or is part of the command, then the column, the
command, and a mark under the command. The mark begins under the first character
of the error's span, which is what the message is about: both the column and the
blanks in front of the mark count characters. Its width counts the bytes of the
span. So the underline ends with the text that it marks if that is ASCII, and
runs on behind it if not.
-/

namespace EntityMapper

/-! ## Lines -/

namespace Text

/-- The lines of a text. -/
def lines (text : String) : List String :=
  (text.split '\n').toList.map String.Slice.copy

/-- A text without a line feed. -/
def OneLine (text : String) : Prop := '\n' ∉ text.toList

instance (text : String) : Decidable (OneLine text) :=
  inferInstanceAs (Decidable ('\n' ∉ text.toList))

theorem OneLine.append {first second : String} (hfirst : OneLine first)
    (hsecond : OneLine second) : OneLine (first ++ second) := by
  rw [OneLine, String.toList_append, List.mem_append]
  exact not_or.mpr ⟨hfirst, hsecond⟩

theorem oneLine_of_hasNoSpace {text : String} (h : Json.HasNoSpace text) :
    OneLine text :=
  fun hmem => absurd (h '\n' hmem) (by decide)

theorem oneLine_natText (n : Nat) : OneLine (Decimal.natText n) :=
  oneLine_of_hasNoSpace (Json.hasNoSpace_digits fun _ => Decimal.isDigit_toDigits)

theorem lines_intercalate {texts : List String} (hsome : texts ≠ [])
    (h : ∀ text ∈ texts, OneLine text) :
    lines (String.intercalate "\n" texts) = texts := by
  have hsplit := String.toList_split_intercalate (c := '\n') h
  rwa [if_neg hsome] at hsplit

/-! ## Messages -/

theorem digitChar_ne_lineFeed {n : Nat} (h : n < 16) : Nat.digitChar n ≠ '\n' := by
  decide +revert

theorem lineFeed_not_mem_toDigits (n : Nat) : '\n' ∉ Nat.toDigits 16 n := by
  induction n using Nat.strongRecOn with
  | ind n ih =>
    rw [Nat.toDigits_eq_if (by decide)]
    split
    · next hsmall =>
      rw [List.mem_singleton]
      exact (digitChar_ne_lineFeed hsmall).symm
    · rw [List.mem_append, List.mem_singleton, not_or]
      exact ⟨ih (n / 16) (by omega),
        (digitChar_ne_lineFeed (Nat.mod_lt n (by decide))).symm⟩

theorem lineFeed_not_mem_quotedChar (c : Char) : '\n' ∉ quotedChar c := by
  by_cases hfeed : c = '\n'
  · subst hfeed
    decide
  · have hplain : '\n' ∉ [c] := by simpa using Ne.symm hfeed
    have hcode : '\n' ∉ ['\\', 'u', '\x7b'] ++ codePointChars c ++ ['\x7d'] := by
      simp [codePointChars, lineFeed_not_mem_toDigits]
    unfold quotedChar
    split_ifs with hquote hbackslash hreturn htab hzero hshown
    · decide
    · decide
    · decide
    · decide
    · decide
    · exact hplain
    · exact hcode

theorem oneLine_quoted (text : String) : OneLine (quoted text) := by
  simp [OneLine, quoted, lineFeed_not_mem_quotedChar]

end Text

open Text (OneLine)

theorem Keyword.oneLine_diagnostic (k : Keyword) : OneLine k.diagnostic := by
  cases k <;> decide

theorem Symbol.oneLine_diagnostic (s : Symbol) : OneLine s.diagnostic := by
  cases s <;> decide

theorem Token.oneLine_diagnostic (t : Token) : OneLine t.diagnostic := by
  have hbracket : OneLine ")" := by decide
  cases t with
  | keyword k => exact k.oneLine_diagnostic
  | symbol s => exact s.oneLine_diagnostic
  | name text | quotedName text | string text =>
    exact .append (.append (by decide) (Text.oneLine_quoted text)) hbracket
  | int value =>
    have hint := Text.oneLine_of_hasNoSpace (Json.hasNoSpace_intText value.toInt)
    exact .append (.append (by decide) hint) hbracket
  | float value =>
    have hfloat : OneLine (Decimal.Layout.diagnostic.text value) :=
      Text.oneLine_of_hasNoSpace
        (Json.hasNoSpace_layout (by decide) (by decide) (by decide) value)
    exact .append (.append (by decide) hfloat) hbracket

/-- A message is one line unless it shows characters of the command as they are. -/
theorem SyntaxFault.oneLine_message {fault : SyntaxFault}
    (h : ∀ text, fault = .unknownText text → OneLine text) :
    OneLine fault.message := by
  cases fault with
  | unknownText text => exact .append (.append (by decide) (h text rfl)) (by decide)
  | endOfInput => decide
  | expected wanted found =>
    exact .append (.append (.append (by decide) wanted.oneLine_diagnostic)
        (by decide)) found.oneLine_diagnostic
  | columnCount columns values =>
    exact .append (.append (.append (Text.oneLine_natText _) (by decide))
        (Text.oneLine_natText _)) (by decide)
  | _ found => exact .append (by decide) found.oneLine_diagnostic

/-! ## Spans as texts -/

/-- The text in front of a span. -/
def Span.before (span : Span) (source : String) : String :=
  String.Pos.Raw.extract source 0 ⟨span.start⟩

/-- The text in a span. -/
def Span.text (span : Span) (source : String) : String :=
  String.Pos.Raw.extract source ⟨span.start⟩ ⟨span.stop⟩

theorem Text.utf8Len_eq (text : List Char) :
    String.utf8Len text = byteSize text := by
  rw [byteSize_eq, String.utf8ByteSize_ofList]

namespace Span.Marks

variable {span : Span} {source : String} {before marked : List Char}

theorem before_eq (h : span.Marks source.toList before marked) :
    span.before source = String.ofList before := by
  obtain ⟨after, hafter⟩ := h.isPrefix
  have hextract := String.extract_of_valid [] before (marked ++ after)
  rw [List.nil_append, ← List.append_assoc, hafter,
    String.ofList_toList] at hextract
  rw [Span.before, h.start_eq, ← Text.utf8Len_eq]
  simpa [String.utf8Len] using hextract

theorem text_eq (h : span.Marks source.toList before marked) :
    span.text source = String.ofList marked := by
  obtain ⟨after, hafter⟩ := h.isPrefix
  have hextract := String.extract_of_valid before marked after
  rw [hafter, String.ofList_toList] at hextract
  rwa [Span.text, h.start_eq, h.stop_eq, Text.byteSize_append, ← Text.utf8Len_eq,
    ← Text.utf8Len_eq]

theorem isValid_start (h : span.Marks source.toList before marked) :
    String.Pos.Raw.IsValid source ⟨span.start⟩ := by
  obtain ⟨after, hafter⟩ := h.isPrefix
  refine String.Pos.Raw.isValid_iff_exists_append.mpr
    ⟨String.ofList before, String.ofList (marked ++ after), ?_, ?_⟩
  · rw [← String.ofList_append, ← List.append_assoc, hafter, String.ofList_toList]
  · rw [h.start_eq, String.rawEndPos_ofList, Text.utf8Len_eq]

theorem isValid_stop (h : span.Marks source.toList before marked) :
    String.Pos.Raw.IsValid source ⟨span.stop⟩ := by
  obtain ⟨after, hafter⟩ := h.isPrefix
  refine String.Pos.Raw.isValid_iff_exists_append.mpr
    ⟨String.ofList (before ++ marked), String.ofList after, ?_, ?_⟩
  · rw [← String.ofList_append, hafter, String.ofList_toList]
  · rw [h.stop_eq, String.rawEndPos_ofList, Text.utf8Len_eq]

theorem start_le_stop (h : span.Marks source.toList before marked) :
    span.start ≤ span.stop := by
  rw [h.start_eq, h.stop_eq, Text.byteSize_append]
  exact Nat.le_add_right ..

/-- The size of a span is that of its text. -/
theorem size_eq (h : span.Marks source.toList before marked) :
    span.size = (span.text source).utf8ByteSize := by
  calc
    span.size = Text.byteSize (before ++ marked) - Text.byteSize before := by
      rw [Span.size, h.start_eq, h.stop_eq]
    _ = Text.byteSize marked := by
      rw [Text.byteSize_append, Nat.add_sub_cancel_left]
    _ = (span.text source).utf8ByteSize := by rw [h.text_eq, ← Text.byteSize_eq]

end Span.Marks

/-! ## Bytes and characters -/

namespace Text

theorem length_le_byteSize (text : List Char) : text.length ≤ byteSize text := by
  induction text with
  | nil => exact Nat.le_refl 0
  | cons c rest ih =>
    have hpos := c.utf8Size_pos
    rw [byteSize_cons, List.length_cons]
    omega

theorem utf8Size_eq_one_iff {c : Char} : c.utf8Size = 1 ↔ c.toNat < 0x80 := by
  rw [Char.utf8Size_eq_one_iff, UInt32.le_iff_toNat_le]
  exact Nat.lt_succ_iff.symm

/-- Characters and bytes are as many just if every character is one byte. -/
theorem byteSize_eq_length_iff (text : List Char) :
    byteSize text = text.length ↔ ∀ c ∈ text, c.toNat < 0x80 := by
  induction text with
  | nil => simp [byteSize]
  | cons c rest ih =>
    have hpos := c.utf8Size_pos
    have hrest := length_le_byteSize rest
    calc
      byteSize (c :: rest) = (c :: rest).length ↔
          c.utf8Size + byteSize rest = rest.length + 1 := by
        rw [byteSize_cons, List.length_cons]
      _ ↔ c.utf8Size = 1 ∧ byteSize rest = rest.length := by omega
      _ ↔ ∀ d ∈ c :: rest, d.toNat < 0x80 := by
        rw [ih, utf8Size_eq_one_iff, List.forall_mem_cons]

/-- An underline of one character at least has the right width just for an ASCII
text. -/
theorem max_utf8ByteSize_eq_iff (text : String) :
    max 1 text.utf8ByteSize = max 1 text.length ↔ IsAscii text := by
  have hbytes : text.utf8ByteSize = byteSize text.toList := by
    rw [byteSize_eq, String.ofList_toList]
  have hle := length_le_byteSize text.toList
  rw [IsAscii, ← byteSize_eq_length_iff, hbytes, ← String.length_toList]
  -- Only the empty text has no character, and it has no byte either.
  rcases Nat.eq_zero_or_pos text.toList.length with hzero | hpos
  · rw [List.length_eq_zero_iff.mp hzero]
    simp [byteSize]
  · omega

end Text

/-! ## The mark under the command -/

namespace SyntaxError

theorem charsBefore_append (front rest : List Char) (place : Nat) :
    charsBefore (place + Text.byteSize front) (front ++ rest) place =
      front.length := by
  induction front generalizing place with
  | nil =>
    cases rest with
    | nil => rfl
    | cons c rest => exact if_neg (Nat.lt_irrefl place)
  | cons c front ih =>
    have hlt : place < place + Text.byteSize (c :: front) := by
      have hpos := c.utf8Size_pos
      rw [Text.byteSize_cons]
      omega
    calc
      charsBefore (place + Text.byteSize (c :: front))
            (c :: (front ++ rest)) place =
          charsBefore (place + Text.byteSize (c :: front)) (front ++ rest)
              (place + c.utf8Size) + 1 := by rw [charsBefore, if_pos hlt]
      _ = front.length + 1 := by rw [Text.byteSize_cons, ← Nat.add_assoc, ih]

/-- The column of a span counts the characters in front of it. -/
theorem column_eq {span : Span} {source : String} {before marked : List Char}
    (h : span.Marks source.toList before marked) :
    column source span.start = (span.before source).length + 1 := by
  obtain ⟨after, hafter⟩ := h.isPrefix
  have hchars := charsBefore_append before (marked ++ after) 0
  rw [← List.append_assoc, hafter, Nat.zero_add, ← h.start_eq] at hchars
  rw [column, hchars, h.before_eq, String.length_ofList]

/-- The lines of a report whose mark stands under a place of the command, so
many characters from its front, and is so many characters wide. The command and
the mark have the same margin. -/
def reportLines (e : SyntaxError) (source : String) (place width : Nat) :
    List String :=
  ["error: " ++ e.message, "  --> column " ++ Decimal.natText (place + 1),
    "   | " ++ source, "   | " ++ String.ofList
        (List.replicate place ' ' ++ '^' :: List.replicate (width - 1) '~'), ""]

theorem report_eq {e : SyntaxError} {source : String} {place : Nat}
    (hplace : column source e.span.start = place + 1) :
    e.report source =
      String.intercalate "\n" (e.reportLines source place (max 1 e.span.size)) := by
  have hwidth : max 1 e.span.size - 1 = e.span.size - 1 := by omega
  apply String.toList_injective
  unfold report
  simp only [reportLines, hplace, hwidth, Nat.add_sub_cancel,
    String.toList_intercalate, List.map_cons, List.map_nil,
    List.intercalate_cons_cons, List.intercalate_singleton, String.toList_append,
    String.toList_ofList]
  simp

end SyntaxError

/-- The error points at what its message is about: at the characters that are no
token, at the end of the command, or at the token that was found. -/
structure SyntaxError.PointsInto (e : SyntaxError) (source : String) : Prop where
  unknownText : ∀ text, e.fault = .unknownText text → e.span.text source = text
  endOfInput : e.fault = .endOfInput →
    e.span = ⟨source.utf8ByteSize, source.utf8ByteSize⟩
  token : ∀ t, e.fault.token? = some t →
    ∃ tokens, Token.read source = .ok tokens ∧ ⟨t, e.span⟩ ∈ tokens

namespace ParsedCommand

variable {source : String} {e : SyntaxError}

theorem pointsInto_of_parse (h : parse source = .error e) :
    e.PointsInto source := by
  refine ⟨fun text hfault => ?_, fun hfault => ?_, fun t hfault => ?_⟩
  · obtain ⟨before, marked, hmarks, htext⟩ := marks_of_parse h
    rw [hmarks.text_eq, htext text hfault]
  · rcases blames_of_parse h with hread | ⟨tokens, -, rfl | ⟨t, -, -, htoken⟩⟩
    · obtain ⟨before, marked, -, hunknown⟩ := Token.fault_of_read hread
      cases hunknown.symm.trans hfault
    · rfl
    · rw [hfault] at htoken
      cases htoken
  · rcases blames_of_parse h
      with hread | ⟨tokens, hread, rfl | ⟨found, hfound, hspan, htoken⟩⟩
    · obtain ⟨before, marked, -, hunknown⟩ := Token.fault_of_read hread
      rw [hunknown] at hfault
      cases hfault
    · cases hfault
    · obtain rfl := Option.some.inj (hfault.symm.trans htoken)
      exact ⟨tokens, hread, hspan ▸ hfound⟩

theorem oneLine_message (hline : OneLine source) (h : parse source = .error e) :
    OneLine e.message := by
  obtain ⟨before, marked, hmarks, htext⟩ := marks_of_parse h
  refine SyntaxFault.oneLine_message fun text hfault => ?_
  rw [htext text hfault, OneLine, String.toList_ofList]
  obtain ⟨after, hafter⟩ := hmarks.isPrefix
  intro hmem
  exact hline
    (hafter ▸ List.mem_append_left after (List.mem_append_right before hmem))

theorem lines_report (hline : OneLine source) (h : parse source = .error e) :
    Text.lines (e.report source) =
      e.reportLines source (e.span.before source).length
        (max 1 (e.span.text source).utf8ByteSize) := by
  obtain ⟨before, marked, hmarks, -⟩ := marks_of_parse h
  rw [SyntaxError.report_eq (SyntaxError.column_eq hmarks), hmarks.size_eq]
  refine Text.lines_intercalate (List.cons_ne_nil _ _) ?_
  have hmark (place width : Nat) : OneLine (String.ofList
      (List.replicate place ' ' ++ '^' :: List.replicate (width - 1) '~')) := by
    simp [OneLine]
  simp only [SyntaxError.reportLines, List.forall_mem_cons]
  exact ⟨.append (by decide) (oneLine_message hline h),
    .append (by decide) (Text.oneLine_natText _), .append (by decide) hline,
    .append (by decide) (hmark _ _), by decide, List.forall_mem_nil _⟩

/-- A syntax error points at what it is about, a piece of the command from one
character boundary to another. In the report on a command of one line the caret
stands right under the first character of that piece, and the underline is as
many characters wide as the piece has bytes, or one if it is empty. That is its
number of characters just if the piece is ASCII. -/
theorem report_of_parse (hline : OneLine source) (h : parse source = .error e) :
    e.PointsInto source ∧
      (e.span.start ≤ e.span.stop ∧ e.span.stop ≤ source.utf8ByteSize ∧
        String.Pos.Raw.IsValid source ⟨e.span.start⟩ ∧
        String.Pos.Raw.IsValid source ⟨e.span.stop⟩) ∧
      Text.lines (e.report source) =
        e.reportLines source (e.span.before source).length
          (max 1 (e.span.text source).utf8ByteSize) ∧
      (max 1 (e.span.text source).utf8ByteSize = max 1 (e.span.text source).length ↔
        Text.IsAscii (e.span.text source)) := by
  obtain ⟨before, marked, hmarks, -⟩ := marks_of_parse h
  have hstop : String.Pos.Raw.IsValid source ⟨e.span.stop⟩ := hmarks.isValid_stop
  exact ⟨pointsInto_of_parse h,
    ⟨hmarks.start_le_stop, hstop.le_utf8ByteSize, hmarks.isValid_start, hstop⟩,
    lines_report hline h, Text.max_utf8ByteSize_eq_iff _⟩

end ParsedCommand

/-- A query that selects a text where a column has to stand. -/
def quotedSelect : String := "SELECT 'é' FROM t"

/-- The complaint about the text. -/
def quotedSelectError : SyntaxError := ⟨.expectedName (.string "é"), ⟨7, 11⟩⟩

theorem parse_quotedSelect :
    ParsedCommand.parse quotedSelect = .error quotedSelectError := rfl

/-- The caret stands under the quote, and the underline goes one character
beyond the text. -/
theorem report_of_parse_quotedSelect : OneLine quotedSelect ∧
    ParsedCommand.parse quotedSelect = .error quotedSelectError ∧
    quotedSelectError.PointsInto quotedSelect ∧
    (7 ≤ 11 ∧ 11 ≤ quotedSelect.utf8ByteSize ∧
      String.Pos.Raw.IsValid quotedSelect ⟨7⟩ ∧
      String.Pos.Raw.IsValid quotedSelect ⟨11⟩) ∧
    Text.lines (quotedSelectError.report quotedSelect) =
      ["error: expected identifier, found String(\"é\")", "  --> column 8",
        "   | SELECT 'é' FROM t", "   |        ^~~~", ""] := by
  have hline : OneLine quotedSelect := by decide
  obtain ⟨hpoints, hspan, hlines, -⟩ :=
    ParsedCommand.report_of_parse hline parse_quotedSelect
  exact ⟨hline, parse_quotedSelect, hpoints, hspan, hlines.trans (by decide)⟩

/-- The text under this span has three characters, and the underline is four
characters wide. -/
theorem underline_wider_than_text : OneLine quotedSelect ∧
    ParsedCommand.parse quotedSelect = .error quotedSelectError ∧
    quotedSelectError.span.text quotedSelect = "'é'" ∧
    Text.lines (quotedSelectError.report quotedSelect) ≠
      quotedSelectError.reportLines quotedSelect
        (quotedSelectError.span.before quotedSelect).length
        (max 1 (quotedSelectError.span.text quotedSelect).length) := by
  have hline : OneLine quotedSelect := by decide
  refine ⟨hline, parse_quotedSelect, by decide, ?_⟩
  rw [ParsedCommand.lines_report hline parse_quotedSelect]
  decide

end EntityMapper
