import NumberPuzzles.Proofs.Fixture.Reading
import NumberPuzzles.Proofs.Text.Lines
import NumberPuzzles.Proofs.Traversal

/-!
# Which texts are lists of words

The pieces of a text are what stands between its commas and line ends, less the blanks
around it, and blank pieces do not count.  A text is read exactly when every piece is a word
of capital letters in double quotes; the words come in the order of the pieces, and the first
piece that is none is reported with the number of its line.  A quote or a comma inside a
word makes another piece of it, so each word has the one form that it is written in.
-/

namespace NumberPuzzles

def IsCapital (letter : Char) : Prop := 'A' ≤ letter ∧ letter ≤ 'Z'

instance (letter : Char) : Decidable (IsCapital letter) :=
  inferInstanceAs (Decidable (_ ∧ _))

@[simp]
theorem isUpper_iff {letter : Char} : letter.isUpper = true ↔ IsCapital letter :=
  decide_eq_true_iff

/-- A piece is a word of capital letters between two double quotes. -/
def IsQuoted (piece : List Char) (word : String) : Prop :=
  piece = '"' :: word.toList ++ ['"'] ∧ ∀ letter ∈ word.toList, IsCapital letter

theorem isQuoted_rightUnique : Relator.RightUnique IsQuoted := by
  rintro piece left right ⟨hleft, -⟩ ⟨hright, -⟩
  rw [hleft] at hright
  simpa [String.toList_inj] using hright

/-! ## One piece -/

@[simp]
theorem unquote?_eq_some_iff {piece letters : List Char} :
    unquote? piece = some letters ↔ IsQuoted piece (String.ofList letters) := by
  rw [IsQuoted, String.toList_ofList]
  constructor
  · intro hunquote
    rw [unquote?.eq_def] at hunquote
    split at hunquote
    · next quoted =>
        split at hunquote
        · next hclosed =>
            cases hunquote
            obtain ⟨hlast, hcapital⟩ := hclosed
            refine ⟨?_, ?_⟩
            · rw [List.cons_append, List.dropLast_append_getLast? _ hlast]
            · intro letter hletter
              exact isUpper_iff.mp (List.all_eq_true.mp hcapital letter hletter)
        · cases hunquote
    · cases hunquote
  · rintro ⟨rfl, hcapital⟩
    have hall : letters.all Char.isUpper = true := by
      rw [List.all_eq_true]
      intro letter hletter
      exact isUpper_iff.mpr (hcapital letter hletter)
    simp [unquote?, hall]

def readPiece (number : Nat) (piece : List Char) : Except LineError String :=
  match unquote? piece with
  | none => .error ⟨number, .badWord piece⟩
  | some letters => .ok (String.ofList letters)

theorem readPieces_eq_mapM (number : Nat) (pieces : List (List Char)) :
    readPieces number pieces = pieces.mapM (readPiece number) := by
  induction pieces with
  | nil => rfl
  | cons piece pieces ih =>
      rw [readPieces, ih]
      cases hpiece : unquote? piece with
      | none => rw [mapM_cons_error (by rw [readPiece, hpiece])]
      | some letters =>
          rw [mapM_cons_ok (by rw [readPiece, hpiece])]
          cases pieces.mapM (readPiece number) <;> rfl

@[simp]
theorem readPiece_eq_ok_iff {number : Nat} {piece : List Char} {word : String} :
    readPiece number piece = .ok word ↔ IsQuoted piece word := by
  have hword : unquote? piece = some word.toList ↔ IsQuoted piece word := by
    rw [unquote?_eq_some_iff, String.ofList_toList]
  rw [← hword, readPiece]
  cases unquote? piece with
  | none => simp
  | some letters => simp [← String.toList_inj]

theorem readPiece_eq_error {number : Nat} {piece : List Char} {error : LineError}
    (herror : readPiece number piece = .error error) : error = ⟨number, .badWord piece⟩ := by
  rw [readPiece] at herror
  split at herror
  · cases herror
    rfl
  · cases herror

/-! ## One line after the other -/

def allPieces (lines : List (List Char)) : List (List Char) := lines.flatMap wordPieces

/-- The error reports the first piece that is no quoted word, and the number of its line. -/
def ReportsAt (first : Nat) (lines : List (List Char)) (error : LineError) : Prop :=
  ∃ before line after front piece back, lines = before ++ line :: after ∧
    wordPieces line = front ++ piece :: back ∧
    (∀ earlier ∈ allPieces before ++ front, ∃ word, IsQuoted earlier word) ∧
    (¬ ∃ word, IsQuoted piece word) ∧
    error = ⟨first + before.length, .badWord piece⟩

theorem exists_quoted_of_forall₂ {pieces : List (List Char)} {words : List String}
    (hquoted : List.Forall₂ IsQuoted pieces words) :
    ∀ piece ∈ pieces, ∃ word, IsQuoted piece word :=
  exists_forall₂_iff.mp ⟨words, hquoted⟩

/-- The pieces of a line are read, or the first one that is no quoted word is reported. -/
theorem readPieces_run (number : Nat) (pieces : List (List Char)) :
    (∃ words, readPieces number pieces = .ok words ∧ List.Forall₂ IsQuoted pieces words) ∨
      ∃ front piece back, pieces = front ++ piece :: back ∧
        (∀ earlier ∈ front, ∃ word, IsQuoted earlier word) ∧ (¬ ∃ word, IsQuoted piece word) ∧
        readPieces number pieces = .error ⟨number, .badWord piece⟩ := by
  rw [readPieces_eq_mapM]
  cases hread : pieces.mapM (readPiece number) with
  | ok words =>
      rw [mapM_eq_ok_iff] at hread
      simp only [readPiece_eq_ok_iff] at hread
      exact .inl ⟨words, rfl, hread⟩
  | error error =>
      obtain ⟨front, piece, back, rfl, hfront, hpiece⟩ := mapM_eq_error_iff.mp hread
      simp only [readPiece_eq_ok_iff] at hfront
      refine .inr ⟨front, piece, back, rfl, hfront, ?_, ?_⟩
      · rintro ⟨word, hword⟩
        rw [readPiece_eq_ok_iff.mpr hword] at hpiece
        cases hpiece
      · rw [readPiece_eq_error hpiece]

theorem readWordLines_run (first : Nat) (lines : List (List Char)) :
    (∃ words, readWordLines (Text.numberedFrom first lines) = .ok words ∧
        List.Forall₂ IsQuoted (allPieces lines) words) ∨
      ∃ error, readWordLines (Text.numberedFrom first lines) = .error error ∧
        ReportsAt first lines error := by
  induction lines generalizing first with
  | nil => exact .inl ⟨[], rfl, .nil⟩
  | cons line rest ih =>
      rw [Text.numberedFrom_cons, readWordLines]
      rcases readPieces_run first (wordPieces line) with
        ⟨words, hread, hquoted⟩ | ⟨front, piece, back, hpieces, hfront, hpiece, hread⟩
      · rcases ih (first + 1) with ⟨others, hothers, hrest⟩ | ⟨error, herror, hreports⟩
        · refine .inl ⟨words ++ others, by rw [hread, hothers]; rfl, ?_⟩
          exact List.rel_append hquoted hrest
        · refine .inr ⟨error, by rw [hread, herror]; rfl, ?_⟩
          obtain ⟨before, stop, after, front, piece, back, rfl, hpieces, hfront, hpiece, rfl⟩ :=
            hreports
          refine ⟨line :: before, stop, after, front, piece, back, rfl, hpieces, ?_, hpiece, ?_⟩
          · intro earlier hearlier
            rw [allPieces, List.flatMap_cons, List.append_assoc] at hearlier
            rcases List.mem_append.mp hearlier with hearlier | hearlier
            · exact exists_quoted_of_forall₂ hquoted earlier hearlier
            · exact hfront earlier hearlier
          · rw [List.length_cons, Nat.add_right_comm, Nat.add_assoc]
      · exact .inr ⟨_, by rw [hread]; rfl, [], line, rest, front, piece, back, rfl, hpieces,
          hfront, hpiece, rfl⟩

/-! ## Writing words -/

def inQuotes (word : String) : List Char := '"' :: word.toList ++ ['"']

/-- Words with a comma between them, and perhaps one behind the last of them, in front of an
empty piece. -/
def writtenLine (words : List String) (comma : Bool) : List Char :=
  [','].intercalate (words.map inQuotes ++ if comma then [[]] else [])

/-- Lines of words, each with or without a comma at its end, and a newline between them. -/
def written (rows : List (List String × Bool)) : List Char :=
  ['\n'].intercalate (rows.map fun row => writtenLine row.1 row.2)

theorem mem_inQuotes {word : String} (hcapital : ∀ letter ∈ word.toList, IsCapital letter)
    {letter : Char} (hletter : letter ∈ inQuotes word) : letter = '"' ∨ IsCapital letter := by
  simp only [inQuotes, List.cons_append, List.mem_cons, List.mem_append, List.not_mem_nil,
    or_false] at hletter
  rcases hletter with hletter | hletter | hletter
  · exact .inl hletter
  · exact .inr (hcapital letter hletter)
  · exact .inl hletter

/-- A letter that is neither a quote nor a capital is in no quoted word. -/
theorem not_mem_inQuotes {word : String} (hcapital : ∀ letter ∈ word.toList, IsCapital letter)
    {letter : Char} (hquote : letter ≠ '"') (hother : letter < 'A') :
    letter ∉ inQuotes word := by
  intro hletter
  rcases mem_inQuotes hcapital hletter with rfl | hletter
  · exact hquote rfl
  · exact absurd hletter.1 (Char.not_le.mpr hother)

@[simp]
theorem trim_inQuotes (word : String) : Text.trim (inQuotes word) = inQuotes word :=
  Text.trim_eq_self (by decide) (by decide)

/-- Pieces with a comma between them are told apart by it, and the empty ones passed over. -/
theorem wordPieces_intercalate {joined : List (List Char)}
    (hcomma : ∀ piece ∈ joined, ',' ∉ piece) (htrim : ∀ piece ∈ joined, Text.trim piece = piece) :
    wordPieces ([','].intercalate joined) = joined.filter fun piece => !piece.isEmpty := by
  by_cases hjoined : joined = []
  · subst hjoined
    rfl
  · have hcut : Text.pieces (· == ',') ([','].intercalate joined) = joined := by
      refine Text.pieces_intercalate rfl hjoined ?_
      intro piece hpiece letter hletter
      have hother : letter ≠ ',' := ne_of_mem_of_not_mem hletter (hcomma piece hpiece)
      simpa using hother
    have hmap : joined.map Text.trim = joined :=
      (List.map_congr_left htrim).trans (List.map_id joined)
    rw [wordPieces, hcut, hmap]

/-- The pieces of a written line are its words, in quotes. -/
theorem wordPieces_writtenLine {words : List String}
    (hcapital : ∀ word ∈ words, ∀ letter ∈ word.toList, IsCapital letter) (comma : Bool) :
    wordPieces (writtenLine words comma) = words.map inQuotes := by
  have hclosing : ∀ piece ∈ (if comma then [[]] else [] : List (List Char)), piece = [] := by
    cases comma <;> simp
  rw [writtenLine, wordPieces_intercalate, List.filter_append, List.filter_eq_self.mpr,
    List.filter_eq_nil_iff.mpr, List.append_nil]
  · intro piece hpiece
    simp [hclosing piece hpiece]
  · intro piece hpiece
    obtain ⟨word, -, rfl⟩ := List.mem_map.mp hpiece
    rfl
  · intro piece hpiece
    rcases List.mem_append.mp hpiece with hpiece | hpiece
    · obtain ⟨word, hword, rfl⟩ := List.mem_map.mp hpiece
      exact not_mem_inQuotes (hcapital word hword) (by decide) (by decide)
    · simp [hclosing piece hpiece]
  · intro piece hpiece
    rcases List.mem_append.mp hpiece with hpiece | hpiece
    · obtain ⟨word, -, rfl⟩ := List.mem_map.mp hpiece
      exact trim_inQuotes word
    · rw [hclosing piece hpiece]
      rfl

/-- A letter that is neither a comma nor a quote nor a capital is in no written line. -/
theorem not_mem_writtenLine {words : List String} {comma : Bool} {letter : Char}
    (hcapital : ∀ word ∈ words, ∀ letter ∈ word.toList, IsCapital letter)
    (hcomma : letter ≠ ',') (hquote : letter ≠ '"') (hother : letter < 'A') :
    letter ∉ writtenLine words comma := by
  intro hletter
  obtain hletter | ⟨piece, hpiece, hletter⟩ := Text.mem_intercalate hletter
  · exact hcomma hletter
  · rcases List.mem_append.mp hpiece with hpiece | hpiece
    · obtain ⟨word, hword, rfl⟩ := List.mem_map.mp hpiece
      exact not_mem_inQuotes (hcapital word hword) hquote hother hletter
    · cases comma <;> simp_all

/-- The pieces of written lines are all their words, in quotes. -/
theorem allPieces_written {rows : List (List String × Bool)}
    (hcapital : ∀ row ∈ rows, ∀ word ∈ row.1, ∀ letter ∈ word.toList, IsCapital letter) :
    allPieces (Text.lines (written rows)) = (rows.flatMap Prod.fst).map inQuotes := by
  rw [allPieces, written, Text.flatMap_lines_intercalate rfl, List.flatMap_map, List.map_flatMap]
  · refine List.flatMap_congr ?_
    intro row hrow
    exact wordPieces_writtenLine (hcapital row hrow) row.2
  · intro line hline
    obtain ⟨row, hrow, rfl⟩ := List.mem_map.mp hline
    exact not_mem_writtenLine (hcapital row hrow) (by decide) (by decide) (by decide)
  · intro line hline hreturn
    obtain ⟨row, hrow, rfl⟩ := List.mem_map.mp hline
    exact not_mem_writtenLine (hcapital row hrow) (by decide) (by decide) (by decide)
      (List.mem_of_getLast? hreturn)

/-! ## The whole text -/

/-- Every piece is a quoted word, and these are the words; or the first other one is
reported. -/
theorem readWords_run (text : List Char) :
    (∃ words, readWords text = .ok words ∧
        List.Forall₂ IsQuoted (allPieces (Text.lines text)) words) ∨
      ∃ error, readWords text = .error error ∧ ReportsAt 1 (Text.lines text) error :=
  readWordLines_run 1 (Text.lines text)

theorem forall₂_of_readWords {text : List Char} {words : List String}
    (hread : readWords text = .ok words) :
    List.Forall₂ IsQuoted (allPieces (Text.lines text)) words := by
  rcases readWords_run text with ⟨others, hothers, hquoted⟩ | ⟨error, herror, -⟩
  · cases hread.symm.trans hothers
    exact hquoted
  · cases hread.symm.trans herror

theorem reportsAt_of_readWords {text : List Char} {error : LineError}
    (hread : readWords text = .error error) : ReportsAt 1 (Text.lines text) error := by
  rcases readWords_run text with ⟨words, hwords, -⟩ | ⟨other, hother, hreports⟩
  · cases hread.symm.trans hwords
  · cases hread.symm.trans hother
    exact hreports

theorem ReportsAt.exists_unquoted {first : Nat} {lines : List (List Char)} {error : LineError}
    (hreports : ReportsAt first lines error) :
    ∃ piece ∈ allPieces lines, ¬ ∃ word, IsQuoted piece word := by
  obtain ⟨before, line, after, front, piece, back, rfl, hpieces, -, hpiece, -⟩ := hreports
  refine ⟨piece, ?_, hpiece⟩
  simp [allPieces, hpieces]

theorem readWords_accepts {text : List Char}
    (hpieces : ∀ piece ∈ allPieces (Text.lines text), ∃ word, IsQuoted piece word) :
    ∃ words, readWords text = .ok words := by
  cases hread : readWords text with
  | ok words => exact ⟨words, rfl⟩
  | error error =>
      obtain ⟨piece, hpiece, hnot⟩ := (reportsAt_of_readWords hread).exists_unquoted
      exact absurd (hpieces piece hpiece) hnot

theorem readWords_written {rows : List (List String × Bool)}
    (hcapital : ∀ row ∈ rows, ∀ word ∈ row.1, ∀ letter ∈ word.toList, IsCapital letter) :
    readWords (written rows) = .ok (rows.flatMap Prod.fst) := by
  have hquoted : List.Forall₂ IsQuoted (allPieces (Text.lines (written rows)))
      (rows.flatMap Prod.fst) := by
    rw [allPieces_written hcapital, List.forall₂_map_left_iff, List.forall₂_same]
    intro word hword
    obtain ⟨row, hrow, hmember⟩ := List.mem_flatMap.mp hword
    exact ⟨rfl, hcapital row hrow word hmember⟩
  obtain ⟨words, hread⟩ := readWords_accepts (exists_quoted_of_forall₂ hquoted)
  rw [hread, isQuoted_rightUnique.forall₂ (forall₂_of_readWords hread) hquoted]

namespace Fixtures

variable {fixtures : Fixtures} {name : String}

theorem words_eq_ok_iff {text : String} {words : List String}
    (hreadable : fixtures.read name = .ok text) :
    fixtures.words name = .ok words ↔ readWords text.toList = .ok words :=
  readAs_eq_ok_iff hreadable

theorem words_eq_error_iff {text : String} {error : FixtureError}
    (hreadable : fixtures.read name = .ok text) :
    fixtures.words name = .error error ↔
      ∃ reported, readWords text.toList = .error reported ∧
        error = .malformed (fixtures.path name) reported :=
  readAs_eq_error_iff hreadable

/-- The words of a readable fixture are read exactly when every piece between its commas and
line ends, trimmed and not blank, is a word of capital letters in double quotes; they are then
the words of the pieces in order.  Otherwise the error names the first other piece and the
number of its line.  Words of capital letters that are written in quotes with commas between
them are read back, however they are divided into lines. -/
theorem reads_quoted_words {text : String} (hreadable : fixtures.read name = .ok text) :
    ((∃ words, fixtures.words name = .ok words) ↔
      ∀ piece ∈ allPieces (Text.lines text.toList), ∃ word, IsQuoted piece word) ∧
    (∀ words, fixtures.words name = .ok words →
      List.Forall₂ IsQuoted (allPieces (Text.lines text.toList)) words) ∧
    (∀ error, fixtures.words name = .error error →
      ∃ before line after front piece back,
        Text.lines text.toList = before ++ line :: after ∧
        wordPieces line = front ++ piece :: back ∧
        (∀ earlier ∈ allPieces before ++ front, ∃ word, IsQuoted earlier word) ∧
        (¬ ∃ word, IsQuoted piece word) ∧
        error = .malformed (fixtures.path name) ⟨before.length + 1, .badWord piece⟩) ∧
    ∀ rows : List (List String × Bool),
      (∀ row ∈ rows, ∀ word ∈ row.1, ∀ letter ∈ word.toList, IsCapital letter) →
        text.toList = written rows → fixtures.words name = .ok (rows.flatMap Prod.fst) := by
  refine ⟨⟨?_, ?_⟩, ?_, ?_, ?_⟩
  · rintro ⟨words, hwords⟩
    rw [words_eq_ok_iff hreadable] at hwords
    exact exists_quoted_of_forall₂ (forall₂_of_readWords hwords)
  · intro hpieces
    obtain ⟨words, hwords⟩ := readWords_accepts hpieces
    exact ⟨words, (words_eq_ok_iff hreadable).mpr hwords⟩
  · intro words hwords
    rw [words_eq_ok_iff hreadable] at hwords
    exact forall₂_of_readWords hwords
  · intro error herror
    obtain ⟨reported, hreported, rfl⟩ := (words_eq_error_iff hreadable).mp herror
    obtain ⟨before, line, after, front, piece, back, hlines, hpieces, hfront, hpiece, rfl⟩ :=
      reportsAt_of_readWords hreported
    refine ⟨before, line, after, front, piece, back, hlines, hpieces, hfront, hpiece, ?_⟩
    rw [Nat.add_comm]
  · intro rows hcapital htext
    rw [words_eq_ok_iff hreadable, htext]
    exact readWords_written hcapital

/-- An empty word, an empty line and a comma at the end of a line are no obstacle. -/
theorem reads_quoted_words_over_lines :
    (Fixtures.mk "d" fun _ => .ok "\"A\",\"\",\n\n\"SKY\"".toUTF8).read "words.txt" =
        .ok "\"A\",\"\",\n\n\"SKY\"" ∧
      (∀ row ∈ [(["A", ""], true), ([], false), (["SKY"], false)],
        ∀ word ∈ row.1, ∀ letter ∈ word.toList, IsCapital letter) ∧
      "\"A\",\"\",\n\n\"SKY\"".toList =
        written [(["A", ""], true), ([], false), (["SKY"], false)] ∧
      (Fixtures.mk "d" fun _ => .ok "\"A\",\"\",\n\n\"SKY\"".toUTF8).words "words.txt" =
        .ok ["A", "", "SKY"] := by
  have hreadable : (Fixtures.mk "d" fun _ => .ok "\"A\",\"\",\n\n\"SKY\"".toUTF8).read
      "words.txt" = .ok "\"A\",\"\",\n\n\"SKY\"" := read_of_text rfl (by decide)
  have hcapital : ∀ row ∈ [(["A", ""], true), ([], false), (["SKY"], false)],
      ∀ word ∈ row.1, ∀ letter ∈ word.toList, IsCapital letter := by simp [IsCapital]
  have htext : "\"A\",\"\",\n\n\"SKY\"".toList =
      written [(["A", ""], true), ([], false), (["SKY"], false)] := by decide
  exact ⟨hreadable, hcapital, htext, (reads_quoted_words hreadable).2.2.2 _ hcapital htext⟩

end Fixtures

end NumberPuzzles
