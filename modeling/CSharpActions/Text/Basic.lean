import CSharpActions.Text.CodePoint

/-!
# Text

A text is a list of code points. Offsets, columns and lengths count code points.
-/
namespace CSharpActions

abbrev Text := List CodePoint

end CSharpActions

/-- The text of a string. -/
def String.text (s : String) : CSharpActions.Text := s.toList.map .char

namespace CSharpActions

instance : Coe String Text := ⟨String.text⟩

namespace Text

/-- What is said of a text that cannot be encoded. -/
def unencodableMessage : Text := "surrogates not allowed"

/-- The string of a text; half of a surrogate pair is replaced, since no string holds one. -/
def asString (t : Text) : String := String.ofList (t.map fun c => c.char?.getD '\uFFFD')

/-- What follows the given beginning, if the text has it. -/
def after? : Text → Text → Option Text
  | [], t => some t
  | _ :: _, [] => none
  | p :: ps, c :: cs => if p = c then after? ps cs else none

/-- Whether the first text stands somewhere in the second. -/
def occursIn (p : Text) : Text → Bool
  | [] => p.isEmpty
  | c :: r => p.isPrefixOf (c :: r) || occursIn p r

/-- The parts of a text between the occurrences of a character. -/
def splitOn (sep : CodePoint) : Text → List Text
  | [] => [[]]
  | c :: r => if c = sep then [] :: splitOn sep r else (splitOn sep r).modifyHead (c :: ·)

/-- Drops the longest ending of characters that satisfy `p`. -/
def dropEndWhile (p : CodePoint → Bool) : Text → Text
  | [] => []
  | c :: r =>
    match dropEndWhile p r with
    | [] => if p c then [] else [c]
    | s => c :: s

/-- A code point several times. -/
abbrev copies (n : Nat) (c : CodePoint) : Text := List.replicate n c

/-- The text followed by as many spaces as it lacks to the width. -/
def padRight (width : Nat) (t : Text) : Text := t ++ copies (width - t.length) ' '

/-- The least index at which `f` accepts what follows, with what `f` finds there. -/
def leftmost? (f : Text → Option α) : Text → Option (Nat × α)
  | [] => (f []).map (0, ·)
  | c :: r =>
    match f (c :: r) with
    | some a => some (0, a)
    | none => (leftmost? f r).map fun (i, a) => (i + 1, a)

/-- Order by code points. -/
def le : Text → Text → Bool
  | [], _ => true
  | _ :: _, [] => false
  | a :: as, b :: bs => if a = b then le as bs else a.toNat ≤ b.toNat

theorem length_of_after? {p t r : Text} (h : after? p t = some r) :
    t.length = p.length + r.length := by
  induction p generalizing t with
  | nil => simp_all [after?]
  | cons a p ih =>
    cases t with
    | nil => simp [after?] at h
    | cons c t =>
      simp only [after?] at h
      split at h
      · have := ih h
        simp only [List.length_cons]; omega
      · simp at h

theorem after?_eq_some_iff {p t r : Text} : after? p t = some r ↔ t = p ++ r := by
  induction p generalizing t with
  | nil => simp [after?, eq_comm]
  | cons a p ih =>
    cases t with
    | nil => simp [after?]
    | cons c t =>
      by_cases h : a = c
      · simp [after?, h, ih]
      · simp [after?, h, Ne.symm h]

theorem splitOn_ne_nil (sep : CodePoint) (t : Text) : splitOn sep t ≠ [] := by
  induction t with
  | nil => simp [splitOn]
  | cons c r ih =>
    unfold splitOn
    split
    · simp
    · cases h : splitOn sep r with
      | nil => exact absurd h ih
      | cons a l => simp

theorem intercalate_modifyHead {c : CodePoint} {sep : Text} {ls : List Text} (h : ls ≠ []) :
    List.intercalate sep (ls.modifyHead (c :: ·)) = c :: List.intercalate sep ls := by
  cases ls with
  | nil => exact absurd rfl h
  | cons l r => cases r <;> simp [List.intercalate]

/-- Splitting loses nothing. -/
theorem intercalate_splitOn (sep : CodePoint) (t : Text) :
    List.intercalate [sep] (splitOn sep t) = t := by
  induction t with
  | nil => rfl
  | cons c r ih =>
    unfold splitOn
    split
    · rename_i h
      subst h
      cases hs : splitOn c r with
      | nil => exact absurd hs (splitOn_ne_nil c r)
      | cons l ls =>
        rw [hs] at ih
        simpa [List.intercalate] using ih
    · rw [intercalate_modifyHead (splitOn_ne_nil sep r), ih]

/-- A text occurs where the other one can be cut around it. -/
theorem occursIn_iff {p t : Text} : occursIn p t = true ↔ ∃ a b, t = a ++ p ++ b := by
  induction t with
  | nil => cases p <;> simp [occursIn]
  | cons c r ih =>
    rw [occursIn, Bool.or_eq_true, List.isPrefixOf_iff_prefix, ih]
    constructor
    · rintro (⟨b, hb⟩ | ⟨a, b, h⟩)
      · exact ⟨[], b, by simpa using hb.symm⟩
      · exact ⟨c :: a, b, by simp [h]⟩
    · rintro ⟨a, b, h⟩
      cases a with
      | nil => exact .inl ⟨b, by simpa using h.symm⟩
      | cons d a =>
        simp only [List.cons_append, List.cons.injEq] at h
        exact .inr ⟨a, b, h.2⟩

/-- The index that is found is the least one. -/
theorem leftmost?_eq_some {f : Text → Option α} {t : Text} {i : Nat} {a : α}
    (h : leftmost? f t = some (i, a)) :
    i ≤ t.length ∧ f (t.drop i) = some a ∧ ∀ j < i, f (t.drop j) = none := by
  induction t generalizing i with
  | nil =>
    obtain ⟨b, hb, he⟩ := Option.map_eq_some_iff.1 h
    cases he
    exact ⟨Nat.le_refl 0, hb, by simp⟩
  | cons c r ih =>
    unfold leftmost? at h
    split at h
    · rename_i b hb
      cases h
      exact ⟨by simp, hb, by simp⟩
    · rename_i hn
      obtain ⟨⟨j, b⟩, hj, he⟩ := Option.map_eq_some_iff.1 h
      cases he
      obtain ⟨hl, hf, hm⟩ := ih hj
      refine ⟨by simpa using hl, hf, ?_⟩
      intro k hk
      cases k with
      | zero => exact hn
      | succ k => exact hm k (by omega)

end Text

end CSharpActions
