import CSharpActions.Proofs.Declaration.Attributes

/-!
# Written parameter lists

A parameter is written with attributes, modifiers and a default value around its type and its name,
and with blanks between them. Each of these pieces is closed for a scan, so a list is split at the
commas that were put in, and what is written is read back.
-/
namespace CSharpActions.Parameter

open Text (isBlank isWord fields)

variable {t r : Text}

/-- A piece of a parameter with the blanks behind it. -/
structure Spaced where
  text : Text
  blanks : Text
deriving DecidableEq, Repr

namespace Spaced

def print (w : Spaced) : Text := w.text ++ w.blanks

/-- The piece between the brackets of an attribute. -/
def printAttribute (a : Spaced) : Text := attributeText a.text ++ a.blanks

/-- At least one blank keeps the piece apart from the next one. -/
def IsApart (w : Spaced) : Prop := w.blanks ≠ [] ∧ ∀ c ∈ w.blanks, isBlank c = true

instance (w : Spaced) : Decidable w.IsApart := inferInstanceAs (Decidable (_ ∧ _))

end Spaced

/-- A parameter piece by piece, as it is written in a list. -/
structure Written where
  front : Text := []
  attributes : List Spaced := []
  modifiers : List Spaced := []
  type : List Spaced
  name : Spaced
  default : Option Text := none
deriving DecidableEq, Repr

namespace Written

def words (w : Written) : List Spaced := w.modifiers ++ w.type ++ [w.name]

def defaultText (w : Written) : Text :=
  match w.default with
  | none => []
  | some value => .char '=' :: value

def print (w : Written) : Text :=
  w.front ++ (w.attributes.flatMap Spaced.printAttribute ++ w.words.flatMap Spaced.print) ++
    w.defaultText

def parameter (w : Written) : Parameter :=
  ⟨List.intercalate [.char ' '] (w.type.map (·.text)), w.name.text⟩

def printAll (ws : List Written) : Text := List.intercalate [.char ','] (ws.map print)

end Written

/-- What stands between the brackets of an attribute. -/
def IsAttribute (body : Text) : Prop :=
  CodePoint.char ']' ∉ body ∧ CodePoint.char '=' ∉ body ∧ body.foldl Nesting.step {} = {}

instance (body : Text) : Decidable (IsAttribute body) := inferInstanceAs (Decidable (_ ∧ _ ∧ _))

/-- A word of a type. It may have commas inside of brackets. -/
structure IsTypeWord (t : Text) : Prop where
  ne_nil : t ≠ []
  not_blank : ∀ c ∈ t, isBlank c = false
  not_mem : t ∉ modifiers
  plain : ∀ c ∈ t, c ∉ "=\"'\x7b\x7d".text
  angle : t.count (.char '<') = t.count (.char '>')
  round : t.count (.char '(') = t.count (.char ')')
  square : t.count (.char '[') = t.count (.char ']')
  intact : Nesting.intact {} t = true

theorem contains_modifiers : modifiers.contains t = true ↔ t ∈ modifiers := List.contains_iff_mem

theorem contains_modifiers_eq_false : modifiers.contains t = false ↔ t ∉ modifiers := by
  rw [← contains_modifiers, Bool.not_eq_true]

instance (t : Text) : Decidable (IsTypeWord t) :=
  decidable_of_iff ((t ≠ [] ∧ (∀ c ∈ t, isBlank c = false) ∧ modifiers.contains t = false ∧
      ∀ c ∈ t, c ∉ "=\"'\x7b\x7d".text) ∧
      t.count (.char '<') = t.count (.char '>') ∧ t.count (.char '(') = t.count (.char ')') ∧
      t.count (.char '[') = t.count (.char ']') ∧ Nesting.intact {} t = true)
    ⟨fun ⟨⟨hn, hb, hm, hp⟩, ha, hr, hs, hi⟩ =>
        ⟨hn, hb, contains_modifiers_eq_false.mp hm, hp, ha, hr, hs, hi⟩,
      fun ⟨hn, hb, hm, hp, ha, hr, hs, hi⟩ =>
        ⟨⟨hn, hb, contains_modifiers_eq_false.mpr hm, hp⟩, ha, hr, hs, hi⟩⟩

/-- The pieces are what a parameter list takes them for. -/
structure Written.IsProper (w : Written) : Prop where
  front : ∀ c ∈ w.front, isBlank c = true
  attributes : ∀ a ∈ w.attributes, IsAttribute a.text ∧ ∀ c ∈ a.blanks, isBlank c = true
  modifiers : ∀ m ∈ w.modifiers, m.text ∈ Parameter.modifiers ∧ m.IsApart
  type_ne_nil : w.type ≠ []
  type : ∀ t ∈ w.type, IsTypeWord t.text ∧ t.IsApart
  head : ∀ t ∈ w.type.head?, t.text.head? ≠ some (.char '[')
  name_ne_nil : w.name.text ≠ []
  name : ∀ c ∈ w.name.text, isWord c = true
  name_not_mem : w.name.text ∉ Parameter.modifiers
  behind : ∀ c ∈ w.name.blanks, isBlank c = true
  default : ∀ v ∈ w.default, Nesting.Closed {} v

instance (w : Written) : Decidable w.IsProper :=
  decidable_of_iff (((∀ c ∈ w.front, isBlank c = true) ∧
      (∀ a ∈ w.attributes, IsAttribute a.text ∧ ∀ c ∈ a.blanks, isBlank c = true) ∧
      ∀ m ∈ w.modifiers, modifiers.contains m.text = true ∧ m.IsApart) ∧
      (w.type ≠ [] ∧ (∀ t ∈ w.type, IsTypeWord t.text ∧ t.IsApart) ∧
        ∀ t ∈ w.type.head?, t.text.head? ≠ some (.char '[')) ∧
      (w.name.text ≠ [] ∧ (∀ c ∈ w.name.text, isWord c = true) ∧
        modifiers.contains w.name.text = false ∧ ∀ c ∈ w.name.blanks, isBlank c = true) ∧
      ∀ v ∈ w.default, Nesting.Closed {} v)
    ⟨fun ⟨⟨hf, ha, hm⟩, ⟨htn, ht, hh⟩, ⟨hnn, hn, hnm, hb⟩, hd⟩ =>
        ⟨hf, ha, fun m h => ⟨contains_modifiers.mp (hm m h).1, (hm m h).2⟩, htn, ht, hh, hnn, hn,
          contains_modifiers_eq_false.mp hnm, hb, hd⟩,
      fun ⟨hf, ha, hm, htn, ht, hh, hnn, hn, hnm, hb, hd⟩ =>
        ⟨⟨hf, ha, fun m h => ⟨contains_modifiers.mpr (hm m h).1, (hm m h).2⟩⟩, ⟨htn, ht, hh⟩,
          ⟨hnn, hn, contains_modifiers_eq_false.mpr hnm, hb⟩, hd⟩⟩

/-- A text that a scan passes over and that is read as one word. -/
structure IsPiece (t : Text) : Prop where
  ne_nil : t ≠ []
  not_blank : ∀ c ∈ t, isBlank c = false
  closed : Nesting.Closed {} t
  balanced : balanced t = true
  not_mem : CodePoint.char '=' ∉ t

/-- What the pieces of a parameter have to be for it to be read back. -/
structure Written.IsReadable (w : Written) : Prop where
  front : ∀ c ∈ w.front, isBlank c = true
  attributes : ∀ a ∈ w.attributes, IsAttribute a.text ∧ Nesting.Closed ⟨1, none⟩ a.text ∧
    ∀ c ∈ a.blanks, isBlank c = true
  modifiers : ∀ m ∈ w.modifiers, m.text ∈ Parameter.modifiers ∧ m.IsApart
  type_ne_nil : w.type ≠ []
  type : ∀ t ∈ w.type, IsPiece t.text ∧ t.text ∉ Parameter.modifiers ∧ t.IsApart
  head : ∀ t ∈ w.type.head?, t.text.head? ≠ some (.char '[')
  name : IsPiece w.name.text
  name_not_mem : w.name.text ∉ Parameter.modifiers
  behind : ∀ c ∈ w.name.blanks, isBlank c = true
  default : ∀ v ∈ w.default, Nesting.Closed {} v

variable {w : Written}

theorem balanced_iff : balanced t = true ↔
    t.count (.char '<') = t.count (.char '>') ∧ t.count (.char '(') = t.count (.char ')') ∧
      t.count (.char '[') = t.count (.char ']') := by
  simp only [balanced, Bool.and_eq_true, beq_iff_eq, and_assoc]

theorem balanced_append (ht : balanced t = true) (hr : balanced r = true) :
    balanced (t ++ r) = true := by
  rw [balanced_iff] at *
  simp only [List.count_append, ht, hr, and_self]

theorem balanced_flatMap {α : Type} {l : List α} {f : α → Text}
    (h : ∀ a ∈ l, balanced (f a) = true) : balanced (l.flatMap f) = true := by
  induction l with
  | nil => rfl
  | cons a l ih =>
    obtain ⟨ha, hl⟩ := List.forall_mem_cons.mp h
    exact balanced_append ha (ih hl)

theorem balanced_of_forall {p : CodePoint → Bool} (hp : ∀ x ∈ Nesting.marks, p x = false)
    (h : ∀ c ∈ t, p c = true) : balanced t = true := by
  have hzero : ∀ x ∈ Nesting.marks, t.count x = 0 :=
    fun x hx => List.count_eq_zero.mpr (Text.not_mem_of_forall h (hp x hx))
  rw [balanced_iff]
  simp only [hzero _ (by decide : CodePoint.char '<' ∈ Nesting.marks),
    hzero _ (by decide : CodePoint.char '>' ∈ Nesting.marks),
    hzero _ (by decide : CodePoint.char '(' ∈ Nesting.marks),
    hzero _ (by decide : CodePoint.char ')' ∈ Nesting.marks),
    hzero _ (by decide : CodePoint.char '[' ∈ Nesting.marks),
    hzero _ (by decide : CodePoint.char ']' ∈ Nesting.marks), and_self]

theorem isBlank_mark : ∀ x ∈ Nesting.marks, isBlank x = false := by decide

theorem isWord_mark : ∀ x ∈ Nesting.marks, isWord x = false := by decide +kernel

theorem isWord_of_mem_modifiers : ∀ m ∈ modifiers, m ≠ [] ∧ ∀ c ∈ m, isWord c = true := by
  decide +kernel

/-- A scan passes over a word of a type. -/
theorem IsTypeWord.closed (h : IsTypeWord t) : Nesting.Closed {} t := by
  have hquote : ∀ c ∈ t, Nesting.isQuote c = false := by
    intro c hc
    have hplain := h.plain c hc
    simp_all [String.text, Nesting.isQuote]
  have hzero : ∀ x ∈ "=\"'\x7b\x7d".text, t.count x = 0 :=
    fun x hx => List.count_eq_zero.mpr fun hm => h.plain x hm hx
  refine ⟨h.intact, ?_⟩
  rw [Nesting.foldl_step hquote, Nesting.countP_opens, Nesting.countP_closes, h.angle, h.round,
    h.square, hzero (.char '\x7b') (by decide), hzero (.char '\x7d') (by decide),
    Int.add_sub_cancel]

/-- A scan of a proper attribute's body that starts inside of its bracket ends there. -/
theorem IsAttribute.closed (h : IsAttribute t) (hi : Nesting.intact ⟨1, none⟩ t = true) :
    Nesting.Closed ⟨1, none⟩ t := by
  refine ⟨hi, ?_⟩
  have hdeep := Nesting.foldl_step_add t 0 1 none
  rwa [h.2.2] at hdeep

theorem IsTypeWord.isPiece (h : IsTypeWord t) : IsPiece t where
  ne_nil := h.ne_nil
  not_blank := h.not_blank
  closed := h.closed
  balanced := balanced_iff.mpr ⟨h.angle, h.round, h.square⟩
  not_mem := fun hm => h.plain _ hm (by decide)

theorem isPiece_of_isWord (hne : t ≠ []) (ht : ∀ c ∈ t, isWord c = true) : IsPiece t where
  ne_nil := hne
  not_blank := fun c hc => Text.isBlank_of_isWord (ht c hc)
  closed := Nesting.closed_of_forall isWord_mark ht
  balanced := balanced_of_forall isWord_mark ht
  not_mem := Text.not_mem_of_forall ht (by decide +kernel)

theorem Written.IsProper.isReadable (h : w.IsProper)
    (hi : ∀ a ∈ w.attributes, Nesting.intact ⟨1, none⟩ a.text = true) : w.IsReadable where
  front := h.front
  attributes := fun a ha =>
    ⟨(h.attributes a ha).1, (h.attributes a ha).1.closed (hi a ha), (h.attributes a ha).2⟩
  modifiers := h.modifiers
  type_ne_nil := h.type_ne_nil
  type := fun t ht => ⟨(h.type t ht).1.isPiece, (h.type t ht).1.not_mem, (h.type t ht).2⟩
  head := h.head
  name := isPiece_of_isWord h.name_ne_nil h.name
  name_not_mem := h.name_not_mem
  behind := h.behind
  default := h.default

namespace Written.IsReadable

theorem forall_words (h : w.IsReadable) :
    ∀ x ∈ w.words, IsPiece x.text ∧ ∀ c ∈ x.blanks, isBlank c = true := by
  intro x hx
  rw [words, List.mem_append, List.mem_append, List.mem_singleton] at hx
  rcases hx with (hx | hx) | rfl
  · obtain ⟨hm, hapart⟩ := h.modifiers x hx
    obtain ⟨hne, hletters⟩ := isWord_of_mem_modifiers x.text hm
    exact ⟨isPiece_of_isWord hne hletters, hapart.2⟩
  · obtain ⟨hpiece, -, hapart⟩ := h.type x hx
    exact ⟨hpiece, hapart.2⟩
  · exact ⟨h.name, h.behind⟩

theorem closed_print (h : w.IsReadable) : Nesting.Closed {} w.print := by
  have hblank : ∀ {t : Text}, (∀ c ∈ t, isBlank c = true) → Nesting.Closed {} t :=
    Nesting.closed_of_forall isBlank_mark
  have hattributes : Nesting.Closed {} (w.attributes.flatMap Spaced.printAttribute) := by
    refine .flatMap fun a ha => ?_
    obtain ⟨-, hclosed, hbehind⟩ := h.attributes a ha
    exact (closed_attributeText hclosed).append (hblank hbehind)
  have hwords : Nesting.Closed {} (w.words.flatMap Spaced.print) := by
    refine .flatMap fun x hx => ?_
    obtain ⟨hpiece, hbehind⟩ := h.forall_words x hx
    exact hpiece.closed.append (hblank hbehind)
  have hdefault : Nesting.Closed {} w.defaultText := by
    unfold defaultText
    split
    · exact .nil _
    · rename_i v hv
      have hequals : Nesting.Closed {} [.char '='] := by decide
      exact hequals.append (h.default v hv)
  exact ((hblank h.front).append (hattributes.append hwords)).append hdefault

theorem exists_words_eq (h : w.IsReadable) :
    ∃ x xs, w.words = x :: xs ∧ x.text.head? ≠ some (.char '[') := by
  obtain ⟨t, ts, ht⟩ := List.exists_cons_of_ne_nil h.type_ne_nil
  cases hm : w.modifiers with
  | nil => exact ⟨t, ts ++ [w.name], by simp [words, hm, ht], h.head t (by simp [ht])⟩
  | cons m ms =>
    refine ⟨m, ms ++ w.type ++ [w.name], by simp [words, hm], fun hhead => ?_⟩
    have hmem := (h.modifiers m (by simp [hm])).1
    have hletter := (isWord_of_mem_modifiers m.text hmem).2 _ (List.mem_of_head? hhead)
    rw [isWord_mark _ (by decide)] at hletter
    exact Bool.false_ne_true hletter

theorem head?_words (h : w.IsReadable) {c : CodePoint}
    (hc : (w.words.flatMap Spaced.print).head? = some c) :
    isBlank c = false ∧ c ≠ .char '[' := by
  obtain ⟨x, xs, hwords, hhead⟩ := h.exists_words_eq
  obtain ⟨hpiece, -⟩ := h.forall_words x (by simp [hwords])
  rw [hwords, List.flatMap_cons, Spaced.print, List.append_assoc,
    List.head?_append_of_ne_nil _ hpiece.ne_nil] at hc
  exact ⟨hpiece.not_blank c (List.mem_of_head? hc), fun heq => hhead (heq ▸ hc)⟩

theorem head?_attributes {l : List Spaced} (hr : ∀ c, r.head? = some c → isBlank c = false)
    {c : CodePoint} (hc : (l.flatMap Spaced.printAttribute ++ r).head? = some c) :
    isBlank c = false := by
  cases l with
  | nil => exact hr c hc
  | cons a l =>
    rw [← Option.some.inj (hc : some (.char '[') = some c)]
    decide

theorem skipAttributes_flatMap {l : List Spaced}
    (h : ∀ a ∈ l, CodePoint.char ']' ∉ a.text ∧ ∀ c ∈ a.blanks, isBlank c = true)
    (hr : ∀ c, r.head? = some c → isBlank c = false) (hn : r.head? ≠ some (.char '[')) :
    skipAttributes (l.flatMap Spaced.printAttribute ++ r) = r := by
  induction l with
  | nil => exact skipAttributes_of_none (attribute?_eq_none hn)
  | cons a l ih =>
    obtain ⟨⟨hclose, hblank⟩, hl⟩ := List.forall_mem_cons.mp h
    have hattribute := attribute?_attributeText hclose
      (a.blanks ++ (l.flatMap Spaced.printAttribute ++ r))
    rw [Text.dropWhile_append_of_head? hblank fun c => head?_attributes hr] at hattribute
    rw [List.flatMap_cons, Spaced.printAttribute, List.append_assoc, List.append_assoc,
      skipAttributes_of_some hattribute, ih hl]

theorem not_mem_equals (h : w.IsReadable) : CodePoint.char '=' ∉
    w.front ++ (w.attributes.flatMap Spaced.printAttribute ++ w.words.flatMap Spaced.print) := by
  have hblank : ∀ {t : Text}, (∀ c ∈ t, isBlank c = true) → CodePoint.char '=' ∉ t :=
    fun ht => Text.not_mem_of_forall ht (by decide)
  simp only [List.mem_append, List.mem_flatMap, not_or, not_exists, not_and]
  refine ⟨hblank h.front, fun a ha => ?_, fun x hx => ?_⟩
  · obtain ⟨⟨-, hbody, -⟩, -, hbehind⟩ := h.attributes a ha
    simp [Spaced.printAttribute, attributeText, hbody, hblank hbehind]
  · obtain ⟨hpiece, hbehind⟩ := h.forall_words x hx
    simp [Spaced.print, hpiece.not_mem, hblank hbehind]

/-- Attributes are dropped with the blanks around them, and so is the default value. -/
theorem exists_declaration_print (h : w.IsReadable) :
    ∃ bs, (∀ c ∈ bs, isBlank c = true) ∧
      declaration w.print = bs ++ w.words.flatMap Spaced.print := by
  have hcut : w.print.takeWhile (· ≠ .char '=') =
      w.front ++ (w.attributes.flatMap Spaced.printAttribute ++ w.words.flatMap Spaced.print) := by
    rw [print, List.takeWhile_append_of_pos (forall_ne_of_not_mem h.not_mem_equals), defaultText]
    cases w.default with
    | none => exact List.append_nil _
    | some v => rw [List.takeWhile_cons_of_neg (by simp), List.append_nil]
  have hhead : ∀ c, (w.words.flatMap Spaced.print).head? = some c → isBlank c = false :=
    fun c hc => (h.head?_words hc).1
  have hskip : skipAttributes
      (w.attributes.flatMap Spaced.printAttribute ++ w.words.flatMap Spaced.print) =
        w.words.flatMap Spaced.print :=
    skipAttributes_flatMap (fun a ha => ⟨(h.attributes a ha).1.1, (h.attributes a ha).2.2⟩) hhead
      fun hc => (h.head?_words hc).2 rfl
  obtain ⟨bs, hbs, hdrop⟩ := skipAttributes_dropWhile
    (w.front ++ (w.attributes.flatMap Spaced.printAttribute ++ w.words.flatMap Spaced.print))
  rw [Text.dropWhile_append_of_head? h.front fun c => head?_attributes hhead, hskip] at hdrop
  exact ⟨bs, hbs, by rw [declaration, hcut, hdrop]⟩

theorem fields_flatMap {l : List Spaced} (h : ∀ x ∈ l, IsPiece x.text ∧ x.IsApart) (t : Text) :
    fields (l.flatMap Spaced.print ++ t) = l.map (·.text) ++ fields t := by
  induction l with
  | nil => rfl
  | cons x l ih =>
    obtain ⟨⟨hpiece, hbehind, hblank⟩, hl⟩ := List.forall_mem_cons.mp h
    have hstop : ∀ c, (x.blanks ++ (l.flatMap Spaced.print ++ t)).head? = some c →
        isBlank c = true := by
      intro c hc
      rw [List.head?_append_of_ne_nil _ hbehind] at hc
      exact hblank c (List.mem_of_head? hc)
    rw [List.flatMap_cons, Spaced.print, List.append_assoc, List.append_assoc,
      Text.fields_append hpiece.ne_nil hpiece.not_blank hstop, Text.fields_blank_append hblank,
      ih hl, List.map_cons, List.cons_append]

theorem fields_words (h : w.IsReadable) :
    fields (w.words.flatMap Spaced.print) = w.words.map (·.text) := by
  have hfront : ∀ x ∈ w.modifiers ++ w.type, IsPiece x.text ∧ x.IsApart := by
    intro x hx
    refine ⟨(h.forall_words x (List.mem_append_left _ hx)).1, ?_⟩
    rcases List.mem_append.mp hx with hx | hx
    · exact (h.modifiers x hx).2
    · exact (h.type x hx).2.2
  have hname : fields (w.name.text ++ w.name.blanks) = [w.name.text] := by
    have hnil := Text.fields_blank_append h.behind []
    rw [List.append_nil] at hnil
    rw [Text.fields_append h.name.ne_nil h.name.not_blank
      fun c hc => h.behind c (List.mem_of_head? hc), hnil, fields]
  rw [words, List.flatMap_append, fields_flatMap hfront, List.flatMap_singleton, Spaced.print,
    hname]
  simp only [List.map_append, List.map_cons, List.map_nil]

/-- A written parameter is read back from its part of a list. -/
theorem ofPart?_print (h : w.IsReadable) : ofPart? w.print = some w.parameter := by
  obtain ⟨bs, hbs, hdeclaration⟩ := h.exists_declaration_print
  have hbalanced : balanced (declaration w.print) = true := by
    rw [hdeclaration, balanced_blank_append hbs]
    refine balanced_flatMap fun x hx => ?_
    obtain ⟨hpiece, hbehind⟩ := h.forall_words x hx
    exact balanced_append hpiece.balanced (balanced_of_forall isBlank_mark hbehind)
  have htokens : tokens w.print = w.type.map (·.text) ++ [w.name.text] := by
    have hmodifiers :
        (w.modifiers.map (·.text)).filter (fun t => !Parameter.modifiers.contains t) = [] := by
      refine List.filter_eq_nil_iff.mpr (List.forall_mem_map.mpr fun m hm => ?_)
      simpa using (h.modifiers m hm).1
    have htype : (w.type.map (·.text)).filter (fun t => !Parameter.modifiers.contains t) =
        w.type.map (·.text) := by
      refine List.filter_eq_self.mpr (List.forall_mem_map.mpr fun t ht => ?_)
      simpa using (h.type t ht).2.1
    rw [tokens, hdeclaration, Text.fields_blank_append hbs, h.fields_words, words]
    simp only [List.map_append, List.filter_append, hmodifiers, htype, List.nil_append]
    simp [h.name_not_mem]
  have hlength : ¬(w.type.map (·.text) ++ [w.name.text]).length < 2 := by
    have hpos := List.length_pos_of_ne_nil h.type_ne_nil
    rw [List.length_append, List.length_map, List.length_singleton]
    omega
  rw [ofPart?, if_pos hbalanced, htokens]
  dsimp only
  rw [if_neg hlength, List.dropLast_concat]
  simp [parameter]

end Written.IsReadable

open Written (printAll)

/-- A written list is split at the commas between its parameters. -/
theorem parse_printAll {ws : List Written} (h : ∀ w ∈ ws, w.IsReadable) :
    parse (printAll ws) = ws.map Written.parameter := by
  cases ws with
  | nil => decide +kernel
  | cons w ws =>
    have hclosed : ∀ t ∈ (w :: ws).map Written.print, Nesting.Closed {} t :=
      List.forall_mem_map.mpr fun v hv => (h v hv).closed_print
    rw [parse, printAll, List.map_cons, split_intercalate hclosed, ← List.map_cons,
      List.filterMap_map]
    have hread : ∀ v ∈ w :: ws, (ofPart? ∘ Written.print) v = some v.parameter :=
      fun v hv => (h v hv).ofPart?_print
    rw [List.filterMap_congr hread, List.filterMap_eq_map']

theorem find?_parameter_eq_none {ws : List Written} {name : Text}
    (h : ∀ w ∈ ws, w.name.text ≠ name) :
    (ws.map Written.parameter).find? (fun q => q.name = name) = none := by
  refine List.find?_eq_none.mpr (List.forall_mem_map.mpr fun w hw hname => ?_)
  exact h w hw (of_decide_eq_true hname)

/-- Written parameters are read back, and a name has the type of the first parameter of that
name. -/
theorem written_parameters_are_read_back (ws : List Written) (h : ∀ w ∈ ws, w.IsProper)
    (hi : ∀ w ∈ ws, ∀ a ∈ w.attributes, Nesting.intact ⟨1, none⟩ a.text = true) :
    parse (printAll ws) = ws.map Written.parameter ∧
      (∀ pre w post, ws = pre ++ w :: post → (∀ v ∈ pre, v.name.text ≠ w.name.text) →
        typeOf? (printAll ws) w.name.text = some w.parameter.type) ∧
      ∀ name, (∀ w ∈ ws, w.name.text ≠ name) → typeOf? (printAll ws) name = none := by
  have hparse := parse_printAll fun w hw => (h w hw).isReadable (hi w hw)
  refine ⟨hparse, ?_, ?_⟩
  · rintro pre w post rfl hpre
    have hfirst : ((w :: post).map Written.parameter).find? (fun q => q.name = w.name.text) =
        some w.parameter := List.find?_cons_of_pos (decide_eq_true rfl)
    rw [typeOf?, hparse, List.map_append, List.find?_append, find?_parameter_eq_none hpre,
      Option.none_or, hfirst, Option.map_some]
  · intro name hname
    rw [typeOf?, hparse, find?_parameter_eq_none hname, Option.map_none]

/-- Commas in attributes, types and default values, and a name that is declared twice. -/
theorem written_parameters_are_read_back_with_commas :
    ∃ ws : List Written,
      printAll ws =
        "\n [A(1, 2), B(\"(,\")][C]\tref Map<int,T> ? x = f(1, \"),\"), (int,T)[,] y,this T x".text ∧
      (∀ w ∈ ws, w.IsProper) ∧
      (∀ w ∈ ws, ∀ a ∈ w.attributes, Nesting.intact ⟨1, none⟩ a.text = true) ∧
      ws.map Written.parameter = [⟨"Map<int,T> ?", "x"⟩, ⟨"(int,T)[,]", "y"⟩, ⟨"T", "x"⟩] ∧
      parse (printAll ws) = ws.map Written.parameter ∧
      (∀ pre w post, ws = pre ++ w :: post → (∀ v ∈ pre, v.name.text ≠ w.name.text) →
        typeOf? (printAll ws) w.name.text = some w.parameter.type) ∧
      ∀ name, (∀ w ∈ ws, w.name.text ≠ name) → typeOf? (printAll ws) name = none := by
  let ws : List Written :=
    [{ front := "\n ", attributes := [⟨"A(1, 2), B(\"(,\")", []⟩, ⟨"C", "\t"⟩],
       modifiers := [⟨"ref", " "⟩], type := [⟨"Map<int,T>", " "⟩, ⟨"?", " "⟩],
       name := ⟨"x", " "⟩, default := some " f(1, \"),\")".text },
     { front := " ", type := [⟨"(int,T)[,]", " "⟩], name := ⟨"y", []⟩ },
     { modifiers := [⟨"this", " "⟩], type := [⟨"T", " "⟩], name := ⟨"x", []⟩ }]
  have hproper : ∀ w ∈ ws, w.IsProper := by decide +kernel
  have hintact : ∀ w ∈ ws, ∀ a ∈ w.attributes, Nesting.intact ⟨1, none⟩ a.text = true := by
    decide +kernel
  exact ⟨ws, by decide +kernel, hproper, hintact, by decide +kernel,
    written_parameters_are_read_back ws hproper hintact⟩

/-- A comma in an attribute separates parameters if brackets are closed in front of it that are not
opened there. -/
theorem written_parameter_is_not_always_read_back :
    ¬∀ ws : List Written, (∀ w ∈ ws, w.IsProper) →
      parse (printAll ws) = ws.map Written.parameter := by
  intro h
  have hread := h [{ attributes := [⟨"),(", " "⟩], type := [⟨"int", " "⟩], name := ⟨"x", []⟩ }]
    (by decide +kernel)
  exact absurd hread (by decide +kernel)

end CSharpActions.Parameter
