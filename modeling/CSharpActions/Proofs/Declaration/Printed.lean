import CSharpActions.Proofs.Declaration.Written

/-!
# Printed parameter lists

What is printed from parameters is read back. A printed parameter is a written one without
attributes, modifiers and a default value, whose type is a single word, and a blank stands in front
of all but the first one.
-/
namespace CSharpActions.Parameter

open Text (isBlank)

/-- The characters that have a part in a list, besides the brackets of types. -/
def symbols : Text := [',', '=', '(', ')', '{', '}', '"', '\'']

/-- Whether a character may stand in a word of a declaration. -/
def isPlain (c : CodePoint) : Bool := !(isBlank c || symbols.contains c)

/-- A word of a declaration that is read as it stands and leaves no bracket open. -/
structure IsToken (w : Text) : Prop where
  ne_nil : w ≠ []
  plain : ∀ c ∈ w, isPlain c = true
  angle : w.count (.char '<') = w.count (.char '>')
  square : w.count (.char '[') = w.count (.char ']')
  not_mem : w ∉ modifiers

/-- A parameter that can be read back from where it is printed. -/
structure IsPrintable (q : Parameter) : Prop where
  type : IsToken q.type
  name : IsToken q.name
  head : q.type.head? ≠ some (.char '[')

def print (q : Parameter) : Text := q.type ++ .char ' ' :: q.name

/-- The pieces of a printed parameter that stands behind blanks. -/
def written (front : Text) (q : Parameter) : Written where
  front := front
  type := [⟨q.type, [.char ' ']⟩]
  name := ⟨q.name, []⟩

variable {w front : Text} {c : CodePoint} {q : Parameter} {qs : List Parameter}

theorem IsToken.isPiece (h : IsToken w) : IsPiece w := by
  have hplain : ∀ c ∈ w, isBlank c = false ∧ c ∉ symbols := by
    intro c hc
    have hc := h.plain c hc
    simpa [isPlain] using hc
  have hnot : ∀ c ∈ symbols, c ∉ w := fun c hc hm => (hplain c hm).2 hc
  have hzero : ∀ c ∈ symbols, w.count c = 0 := fun c hc => List.count_eq_zero.mpr (hnot c hc)
  have hquote : ∀ c ∈ w, Nesting.isQuote c = false := by
    intro c hc
    have hsymbol := (hplain c hc).2
    simp_all [symbols, Nesting.isQuote]
  have hround : w.count (.char '(') = w.count (.char ')') :=
    (hzero _ (by decide)).trans (hzero _ (by decide)).symm
  refine
    { ne_nil := h.ne_nil
      not_blank := fun c hc => (hplain c hc).1
      closed := ⟨Nesting.intact_of_not_mem (hnot _ (by decide)), ?_⟩
      balanced := balanced_iff.mpr ⟨h.angle, hround, h.square⟩
      not_mem := hnot _ (by decide) }
  rw [Nesting.foldl_step hquote, Nesting.countP_opens, Nesting.countP_closes, h.angle, h.square,
    hround, hzero (.char '{') (by decide), hzero (.char '}') (by decide), Int.add_sub_cancel]

theorem IsPrintable.isReadable (h : IsPrintable q) (hf : ∀ c ∈ front, isBlank c = true) :
    (q.written front).IsReadable where
  front := hf
  attributes := by simp [written]
  modifiers := by simp [written]
  type_ne_nil := by simp [written]
  type := by
    have hblank : isBlank (.char ' ') = true := by decide
    simpa [written, Spaced.IsApart] using ⟨h.type.isPiece, h.type.not_mem, hblank⟩
  head := by simpa [written] using h.head
  name := h.name.isPiece
  name_not_mem := h.name.not_mem
  behind := by simp [written]
  default := by simp [written]

theorem intercalate_print (q : Parameter) (qs : List Parameter) :
    List.intercalate ", " ((q :: qs).map print) =
      Written.printAll (q.written [] :: qs.map (written [.char ' '])) := by
  have hprint : ∀ (front : Text) (q : Parameter), (q.written front).print = front ++ q.print := by
    simp [written, Written.print, Written.words, Written.defaultText, Spaced.print, print]
  have hcons (sep part : Text) (post : List Text) :
      List.intercalate sep (part :: post) = part ++ post.flatMap (sep ++ ·) :=
    intercalate_append_cons sep [] post
  rw [Written.printAll, List.map_cons, List.map_cons, hcons, hcons, List.map_map, hprint,
    List.nil_append, List.flatMap_map, List.flatMap_map]
  congr 1
  refine List.flatMap_congr fun p _ => ?_
  simp [hprint, String.text]

/-- Printed parameters are read back. -/
theorem parse_print (h : ∀ q ∈ qs, IsPrintable q) :
    parse (List.intercalate ", " (qs.map print)) = qs := by
  cases qs with
  | nil => decide +kernel
  | cons q qs =>
    obtain ⟨hq, hqs⟩ := List.forall_mem_cons.mp h
    have hreadable : ∀ w ∈ q.written [] :: qs.map (written [.char ' ']), w.IsReadable := by
      refine List.forall_mem_cons.mpr ⟨hq.isReadable (by simp), ?_⟩
      exact List.forall_mem_map.mpr fun p hp => (hqs p hp).isReadable (by decide)
    have hparameter : ∀ (front : Text) (p : Parameter), (p.written front).parameter = p := by
      simp [written, Written.parameter]
    rw [intercalate_print, parse_printAll hreadable, List.map_cons, List.map_map, hparameter]
    exact congrArg (q :: ·) ((List.map_congr_left fun p _ => hparameter _ p).trans (List.map_id qs))

end CSharpActions.Parameter
