import CSharpActions.Text.Ranges

/-!
# Blanks

The blank characters are the white space of Unicode together with the four information
separators. The zero width space and the byte order mark are not blank.
-/
namespace CSharpActions.Text

def blankRanges : Ranges :=
  [(9, 13), (28, 32), (133, 133), (160, 160), (5760, 5760), (8192, 8202), (8232, 8233),
    (8239, 8239), (8287, 8287), (12288, 12288)]

def isBlank (c : CodePoint) : Bool := blankRanges.has c

/-- The text without the blanks at both of its ends. -/
def trim (t : Text) : Text := dropEndWhile isBlank (t.dropWhile isBlank)

/-- The maximal runs of characters that are not blank. -/
def fields : Text → List Text
  | [] => []
  | c :: r =>
    if isBlank c then fields r
    else (c :: r.takeWhile (!isBlank ·)) :: fields (r.dropWhile (!isBlank ·))
termination_by t => t.length
decreasing_by
  · simp
  · have := (List.dropWhile_suffix (!isBlank ·) (l := r)).length_le
    simp only [List.length_cons]; omega

/-- Reads at least one blank, and all that follow. -/
def blanks? : Text → Option Text
  | [] => none
  | c :: r => if isBlank c then some (r.dropWhile isBlank) else none

theorem length_lt_of_blanks? {t r : Text} (h : blanks? t = some r) : r.length < t.length := by
  cases t with
  | nil => simp [blanks?] at h
  | cons c s =>
    simp only [blanks?] at h
    split at h
    · have := (List.dropWhile_suffix isBlank (l := s)).length_le
      simp only [Option.some.injEq] at h
      subst h
      simp only [List.length_cons]; omega
    · simp at h

end CSharpActions.Text
