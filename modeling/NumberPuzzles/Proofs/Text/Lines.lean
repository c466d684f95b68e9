import Mathlib.Data.List.Basic
import Mathlib.Data.List.TakeWhile
import NumberPuzzles.Text.Lines

/-!
# Cutting a text and putting it together again

Cutting at separators undoes joining with one separator between the pieces, as long as no
piece holds a separator itself.  From this one fact the lines of a text that was joined
from lines, and the cells of a line that was joined from cells, are those they were joined
from.  A piece, trimmed or not, never has more letters than the text it was cut from.
-/

namespace NumberPuzzles.Text

/-! ## Pieces -/

theorem pieces_eq_splitOnP (isSeparator : Char → Bool) (text : List Char) :
    pieces isSeparator text = text.splitOnP isSeparator := by
  induction text with
  | nil => rfl
  | cons letter letters ih =>
      rw [pieces, List.splitOnP_cons_eq_if_modifyHead, ih]
      obtain ⟨piece, rest, hrest⟩ :=
        List.exists_cons_of_ne_nil (List.splitOnP_ne_nil isSeparator letters)
      rw [hrest]
      rfl

/-- The first piece ends at the first separator. -/
theorem pieces_append_cons {isSeparator : Char → Bool} {separator : Char}
    (hseparator : isSeparator separator = true) {piece : List Char}
    (hpiece : ∀ letter ∈ piece, isSeparator letter = false) (rest : List Char) :
    pieces isSeparator (piece ++ separator :: rest) = piece :: pieces isSeparator rest := by
  rw [pieces_eq_splitOnP, pieces_eq_splitOnP, List.splitOnP_append_cons _ _ hseparator,
    List.splitOnP_eq_singleton hpiece, List.singleton_append]

theorem pieces_eq_singleton {isSeparator : Char → Bool} {piece : List Char}
    (hpiece : ∀ letter ∈ piece, isSeparator letter = false) :
    pieces isSeparator piece = [piece] := by
  rw [pieces_eq_splitOnP, List.splitOnP_eq_singleton hpiece]

/-- Cutting undoes joining. -/
theorem pieces_intercalate {isSeparator : Char → Bool} {separator : Char}
    (hseparator : isSeparator separator = true) {joined : List (List Char)} (hne : joined ≠ [])
    (hjoined : ∀ piece ∈ joined, ∀ letter ∈ piece, isSeparator letter = false) :
    pieces isSeparator ([separator].intercalate joined) = joined := by
  induction joined with
  | nil => exact absurd rfl hne
  | cons piece rest ih =>
      obtain ⟨hpiece, hothers⟩ := List.forall_mem_cons.mp hjoined
      cases rest with
      | nil => rw [List.intercalate_singleton, pieces_eq_singleton hpiece]
      | cons next rest =>
          rw [List.intercalate_cons_cons, List.append_assoc, List.singleton_append,
            pieces_append_cons hseparator hpiece, ih (by simp) hothers]

theorem mem_intercalate {separator letter : Char} {joined : List (List Char)}
    (hletter : letter ∈ [separator].intercalate joined) :
    letter = separator ∨ ∃ piece ∈ joined, letter ∈ piece := by
  induction joined with
  | nil => simp at hletter
  | cons piece rest ih =>
      cases rest with
      | nil =>
          rw [List.intercalate_singleton] at hletter
          exact .inr ⟨piece, List.mem_cons_self, hletter⟩
      | cons next rest =>
          rw [List.intercalate_cons_cons, List.append_assoc, List.mem_append, List.mem_append,
            List.mem_singleton] at hletter
          rcases hletter with hletter | hletter | hletter
          · exact .inr ⟨piece, List.mem_cons_self, hletter⟩
          · exact .inl hletter
          · obtain hletter | ⟨other, hother, hletter⟩ := ih hletter
            · exact .inl hletter
            · exact .inr ⟨other, List.mem_cons_of_mem piece hother, hletter⟩

theorem pieces_sublist {isSeparator : Char → Bool} {text piece : List Char}
    (hpiece : piece ∈ pieces isSeparator text) : piece.Sublist text := by
  induction text generalizing piece with
  | nil => simp_all [pieces]
  | cons letter letters ih =>
      have hne : pieces isSeparator letters ≠ [] :=
        pieces_eq_splitOnP isSeparator letters ▸ List.splitOnP_ne_nil isSeparator letters
      obtain ⟨first, rest, hrest⟩ := List.exists_cons_of_ne_nil hne
      rw [hrest] at ih
      rw [pieces, hrest] at hpiece
      split at hpiece
      · rcases List.mem_cons.mp hpiece with rfl | hpiece
        · exact List.nil_sublist _
        · exact (ih hpiece).cons letter
      · rcases List.mem_cons.mp hpiece with rfl | hpiece
        · exact (ih List.mem_cons_self).cons_cons letter
        · exact (ih (List.mem_cons_of_mem first hpiece)).cons letter

/-! ## Blanks at the ends -/

theorem trim_isEmpty (text : List Char) : (trim text).isEmpty = text.all isBlank := by
  rw [Bool.eq_iff_iff, List.isEmpty_iff, trim, List.reverse_eq_nil_iff, List.dropWhile_eq_nil_iff,
    List.all_eq_true]
  constructor
  · intro hblank letter hletter
    -- What is in front of the first other letter is blank in any case.
    by_contra hother
    have hkept : text.dropWhile isBlank ≠ [] := by
      intro hnil
      exact hother (List.dropWhile_eq_nil_iff.mp hnil letter hletter)
    have hhead := List.head_dropWhile_not isBlank hkept
    rw [hblank _ (List.mem_reverse.mpr (List.head_mem hkept))] at hhead
    cases hhead
  · intro hblank letter hletter
    exact hblank letter ((List.dropWhile_sublist _).subset (List.mem_reverse.mp hletter))

theorem trim_sublist (text : List Char) : (trim text).Sublist text := by
  have hback : ((text.dropWhile isBlank).reverse.dropWhile isBlank).Sublist
      (text.dropWhile isBlank).reverse := List.dropWhile_sublist _
  have hfront : (trim text).Sublist (text.dropWhile isBlank) := by
    simpa [trim] using hback.reverse
  exact hfront.trans (List.dropWhile_sublist _)

/-- A text that neither begins nor ends with a blank has none to lose. -/
theorem trim_eq_self {first last : Char} {middle : List Char} (hfirst : isBlank first = false)
    (hlast : isBlank last = false) :
    trim (first :: middle ++ [last]) = first :: middle ++ [last] := by
  simp [trim, hfirst, hlast]

/-- Blanks around a text are trimmed away with its own. -/
theorem trim_append {front text back : List Char} (hfront : ∀ letter ∈ front, isBlank letter = true)
    (hback : ∀ letter ∈ back, isBlank letter = true) :
    trim (front ++ text ++ back) = trim text := by
  have hbehind : back.dropWhile isBlank = [] := List.dropWhile_eq_nil_iff.mpr hback
  have hreversed : ∀ letter ∈ back.reverse, isBlank letter = true :=
    fun letter hletter => hback letter (List.mem_reverse.mp hletter)
  rw [trim, List.append_assoc, List.dropWhile_append_of_pos hfront, List.dropWhile_append]
  split
  · next hempty =>
      rw [hbehind, trim, List.isEmpty_iff.mp hempty]
  · rw [List.reverse_append, List.dropWhile_append_of_pos hreversed, trim]

/-- A text of other letters has no blanks to lose. -/
theorem trim_of_forall_not {text : List Char} (hother : ∀ letter ∈ text, isBlank letter = false) :
    trim text = text := by
  have hkept {letters : List Char} (hletters : ∀ letter ∈ letters, isBlank letter = false) :
      letters.dropWhile isBlank = letters := by
    cases letters with
    | nil => rfl
    | cons first rest => simp [hletters first List.mem_cons_self]
  rw [trim, hkept hother, hkept, List.reverse_reverse]
  intro letter hletter
  exact hother letter (List.mem_reverse.mp hletter)

/-- A carriage return at the end is a blank. -/
@[simp]
theorem trim_dropReturn (piece : List Char) : trim (dropReturn piece) = trim piece := by
  rw [dropReturn]
  split
  · next hreturn =>
      have hpiece : piece.dropLast ++ ['\r'] = piece := List.dropLast_append_getLast? _ hreturn
      have hblank : ∀ letter ∈ ['\r'], isBlank letter = true :=
        List.forall_mem_singleton.mpr rfl
      calc trim piece.dropLast
          = trim ([] ++ piece.dropLast ++ ['\r']) :=
            (trim_append (List.forall_mem_nil _) hblank).symm
        _ = trim piece := by rw [List.nil_append, hpiece]
  · rfl

/-! ## Lines -/

theorem linesOfPieces_cons {piece : List Char} {rest : List (List Char)} (hrest : rest ≠ []) :
    linesOfPieces (piece :: rest) = dropReturn piece :: linesOfPieces rest := by
  cases rest with
  | nil => exact absurd rfl hrest
  | cons next rest => rfl

theorem dropReturn_eq_self {piece : List Char} (hpiece : piece.getLast? ≠ some '\r') :
    dropReturn piece = piece := by
  rw [dropReturn, if_neg hpiece]

/-- The lines of pieces that end in no carriage return are the pieces, but for an empty one
at the end. -/
theorem linesOfPieces_append {front : List (List Char)} {last : List Char}
    (hreturn : ∀ piece ∈ front, piece.getLast? ≠ some '\r') :
    linesOfPieces (front ++ [last]) = front ++ if last.isEmpty then [] else [last] := by
  induction front with
  | nil => rfl
  | cons piece front ih =>
      rw [List.cons_append, linesOfPieces_cons (by simp),
        dropReturn_eq_self (hreturn piece List.mem_cons_self), ih, List.cons_append]
      intro other hother
      exact hreturn other (List.mem_cons_of_mem piece hother)

theorem lines_sublist {text line : List Char} (hline : line ∈ lines text) :
    line.Sublist text := by
  suffices hpieces : ∀ cut : List (List Char), line ∈ linesOfPieces cut →
      ∃ piece ∈ cut, line.Sublist piece by
    obtain ⟨piece, hpiece, hsublist⟩ := hpieces _ hline
    exact hsublist.trans (pieces_sublist hpiece)
  intro cut hmember
  fun_induction linesOfPieces cut with
  | case1 => simp at hmember
  | case2 last hempty => simp at hmember
  | case3 last hfull => exact ⟨last, by simp, by simp_all⟩
  | case4 piece rest hrest ih =>
      rcases List.mem_cons.mp hmember with rfl | hmember
      · refine ⟨piece, List.mem_cons_self, ?_⟩
        rw [dropReturn]
        split
        · exact List.dropLast_sublist piece
        · exact List.Sublist.refl piece
      · obtain ⟨other, hother, hsublist⟩ := ih hmember
        exact ⟨other, List.mem_cons_of_mem piece hother, hsublist⟩

def numberedFrom (first : Nat) (lines : List (List Char)) : List (Nat × List Char) :=
  (lines.zipIdx first).map fun (line, number) => (number, line)

@[simp]
theorem numberedFrom_cons (first : Nat) (line : List Char) (rest : List (List Char)) :
    numberedFrom first (line :: rest) = (first, line) :: numberedFrom (first + 1) rest := rfl

theorem numberedLines_eq (text : List Char) :
    numberedLines text = numberedFrom 1 (lines text) := rfl

/-! ## Joining lines and cells -/

/-- Lines with a newline between them, whatever stands behind the last newline. -/
theorem lines_intercalate {front : List (List Char)} {last : List Char}
    (hnewline : ∀ line ∈ front ++ [last], '\n' ∉ line)
    (hreturn : ∀ line ∈ front, line.getLast? ≠ some '\r') :
    lines (['\n'].intercalate (front ++ [last])) =
      front ++ if last.isEmpty then [] else [last] := by
  rw [lines, pieces_intercalate (by simp) (by simp), linesOfPieces_append hreturn]
  intro line hline letter hletter
  have hother : letter ≠ '\n' := ne_of_mem_of_not_mem hletter (hnewline line hline)
  simpa using hother

theorem flatMap_newline_eq (ended : List (List Char)) :
    ended.flatMap (· ++ ['\n']) = ['\n'].intercalate (ended ++ [[]]) := by
  induction ended with
  | nil => rfl
  | cons line rest ih =>
      obtain ⟨next, others, hrest⟩ := List.exists_cons_of_ne_nil
        (List.append_ne_nil_of_right_ne_nil rest (List.cons_ne_nil ([] : List Char) []))
      rw [List.flatMap_cons, ih, List.cons_append, hrest, List.intercalate_cons_cons]

/-- What is collected from the lines of joined lines is collected from what was joined. -/
theorem flatMap_lines_intercalate {α : Type} {collect : List Char → List α}
    (hnothing : collect [] = []) {joined : List (List Char)}
    (hnewline : ∀ line ∈ joined, '\n' ∉ line)
    (hreturn : ∀ line ∈ joined, line.getLast? ≠ some '\r') :
    (lines (['\n'].intercalate joined)).flatMap collect = joined.flatMap collect := by
  obtain rfl | ⟨front, last, rfl⟩ := joined.eq_nil_or_concat
  · rfl
  · rw [List.concat_eq_append] at hnewline hreturn ⊢
    rw [lines_intercalate hnewline (fun line hline => hreturn line (List.mem_append_left _ hline)),
      List.flatMap_append, List.flatMap_append]
    cases last with
    | nil => simp [hnothing]
    | cons letter letters => rfl

/-- Lines that each end in a newline. -/
theorem lines_flatMap_newline {ended : List (List Char)}
    (hnewline : ∀ line ∈ ended, '\n' ∉ line)
    (hreturn : ∀ line ∈ ended, line.getLast? ≠ some '\r') :
    lines (ended.flatMap (· ++ ['\n'])) = ended := by
  rw [flatMap_newline_eq, lines_intercalate _ hreturn]
  · simp
  · intro line hline
    rcases List.mem_append.mp hline with hline | hline
    · exact hnewline line hline
    · simp [List.mem_singleton.mp hline]

/-- Cells that are not empty and hold no blank are told apart by the blanks between them. -/
theorem cells_intercalate {separator : Char} (hseparator : isBlank separator = true)
    {joined : List (List Char)} (hne : ∀ cell ∈ joined, cell ≠ [])
    (hblank : ∀ cell ∈ joined, ∀ letter ∈ cell, isBlank letter = false) :
    cells ([separator].intercalate joined) = joined := by
  by_cases hjoined : joined = []
  · subst hjoined
    rfl
  · rw [cells, pieces_intercalate hseparator hjoined hblank, List.filter_eq_self]
    intro cell hcell
    simpa using hne cell hcell

end NumberPuzzles.Text
