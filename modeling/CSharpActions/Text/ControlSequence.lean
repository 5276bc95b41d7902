import CSharpActions.Text.Basic

/-!
# Control sequences

A control sequence of a terminal is the escape character, an opening bracket, digits, semicolons
and question marks, and a letter. Printed text is shown without them.
-/
namespace CSharpActions.Text

def isParameter (c : CodePoint) : Bool := ('0' ≤ c && c ≤ '9') || c = ';' || c = '?'

def isAsciiLetter (c : CodePoint) : Bool := ('a' ≤ c && c ≤ 'z') || ('A' ≤ c && c ≤ 'Z')

/-- Reads a control sequence. -/
def controlSequence? : Text → Option Text
  | .char '\x1b' :: .char '[' :: r =>
    match r.dropWhile isParameter with
    | c :: s => if isAsciiLetter c then some s else none
    | [] => none
  | _ => none

theorem length_lt_of_controlSequence? {t s : Text} (h : controlSequence? t = some s) :
    s.length < t.length := by
  unfold controlSequence? at h
  split at h
  · rename_i r
    have hr := (List.dropWhile_suffix isParameter (l := r)).length_le
    split at h
    · rename_i c u hu
      split at h
      · cases h
        rw [hu] at hr
        simp only [List.length_cons] at hr ⊢
        omega
      · simp at h
    · simp at h
  · simp at h

/-- The text without its control sequences. -/
def dropControlSequences (t : Text) : Text :=
  match _h : controlSequence? t with
  | some s => dropControlSequences s
  | none =>
    match t with
    | [] => []
    | c :: r => c :: dropControlSequences r
termination_by t.length
decreasing_by
  · exact length_lt_of_controlSequence? _h
  · simp

end CSharpActions.Text
