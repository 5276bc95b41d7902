import CSharpActions.Declaration.Parameter

/-!
# What a scan of a parameter list passes over

A text is closed for a scan if none of its commas separates parameters and the scan is behind it
where it was in front of it. A closed text is never split, and the parts of a text are the one list
of parts, closed but for the last, that commas join to the text. Outside quotes a scan counts
brackets, and how deep it starts makes no difference to what it counts.
-/
namespace CSharpActions.Parameter

variable {s : Nesting} {t r : Text} {c : CodePoint} {n k : Int} {q : Option CodePoint}

namespace Nesting

/-- No comma of the text separates, for a scan that comes to the text in the given state. -/
def intact (s : Nesting) : Text → Bool
  | [] => true
  | c :: r => !s.separates c && (s.step c).intact r

/-- A scan passes over the text: no comma of it separates, and the state behind it is the same. -/
structure Closed (s : Nesting) (t : Text) : Prop where
  intact : s.intact t = true
  foldl_step : t.foldl step s = s

instance (s : Nesting) (t : Text) : Decidable (s.Closed t) :=
  decidable_of_iff (s.intact t = true ∧ t.foldl step s = s)
    ⟨fun ⟨hi, hs⟩ => ⟨hi, hs⟩, fun ⟨hi, hs⟩ => ⟨hi, hs⟩⟩

theorem intact_append (s : Nesting) (t r : Text) :
    s.intact (t ++ r) = (s.intact t && (t.foldl step s).intact r) := by
  induction t generalizing s with
  | nil => rfl
  | cons c t ih => simp [intact, ih, Bool.and_assoc]

theorem intact_of_not_mem (h : CodePoint.char ',' ∉ t) : s.intact t = true := by
  induction t generalizing s with
  | nil => rfl
  | cons c t ih =>
    obtain ⟨hc, ht⟩ := List.ne_and_not_mem_of_not_mem_cons h
    simp [intact, separates, hc.symm, ih ht]

/-- A comma separates where the scan is at its start again. -/
theorem separates_iff : s.separates c = true ↔ c = .char ',' ∧ s = {} := by
  obtain ⟨depth, quote⟩ := s
  simp only [separates, Bool.and_eq_true, Option.isNone_iff_eq_none, decide_eq_true_eq,
    Nesting.mk.injEq]
  grind

/-- In an intact text the scan comes to no comma in its first state. -/
theorem intact_iff :
    s.intact t = true ↔ ∀ x y, t = x ++ .char ',' :: y → x.foldl step s ≠ ({} : Nesting) := by
  induction t generalizing s with
  | nil => simp [intact]
  | cons c t ih =>
    rw [intact, Bool.and_eq_true, Bool.not_eq_true', Bool.eq_false_iff, ne_eq, separates_iff, ih]
    constructor
    · rintro ⟨hc, ht⟩ x y hxy
      cases x with
      | nil => exact fun hs => hc ⟨(List.cons.inj hxy).1, hs⟩
      | cons a x =>
        obtain ⟨rfl, rfl⟩ := List.cons.inj hxy
        exact ht x y rfl
    · intro h
      refine ⟨fun ⟨hc, hs⟩ => h [] t (by rw [hc]; rfl) hs, fun x y hxy => ?_⟩
      exact h (c :: x) y (by rw [hxy]; rfl)

namespace Closed

theorem nil (s : Nesting) : s.Closed [] := ⟨rfl, rfl⟩

theorem append (ht : s.Closed t) (hr : s.Closed r) : s.Closed (t ++ r) := by
  refine ⟨?_, by rw [List.foldl_append, ht.foldl_step, hr.foldl_step]⟩
  rw [intact_append, ht.foldl_step, ht.intact, hr.intact, Bool.and_self]

theorem flatMap {α : Type} {l : List α} {f : α → Text} (h : ∀ a ∈ l, s.Closed (f a)) :
    s.Closed (l.flatMap f) := by
  induction l with
  | nil => exact nil s
  | cons a l ih =>
    obtain ⟨ha, hl⟩ := List.forall_mem_cons.mp h
    exact ha.append (ih hl)

end Closed

/-- The characters that a scan looks at. -/
def marks : Text := [',', '"', '\'', '<', '>', '(', ')', '[', ']', '{', '}']

theorem step_of_not_mem (h : c ∉ marks) : step ⟨n, none⟩ c = ⟨n, none⟩ := by
  simp only [marks, List.mem_cons, List.not_mem_nil, or_false, not_or] at h
  simp [step, isQuote, opens, closes, h]

/-- A scan passes over characters of a class that has none of its marks. -/
theorem closed_of_forall {p : CodePoint → Bool} (hp : ∀ x ∈ marks, p x = false)
    (h : ∀ c ∈ t, p c = true) : Closed ⟨n, none⟩ t := by
  have hmarks : ∀ c ∈ t, c ∉ marks := by
    intro c hc hm
    have hpos := h c hc
    rw [hp c hm] at hpos
    exact Bool.false_ne_true hpos
  refine ⟨intact_of_not_mem fun hm => hmarks _ hm (by decide), ?_⟩
  clear h
  induction t with
  | nil => rfl
  | cons c t ih =>
    obtain ⟨hc, ht⟩ := List.forall_mem_cons.mp hmarks
    rw [List.foldl_cons, step_of_not_mem hc, ih ht]

theorem countP_opens (t : Text) : t.countP opens =
    t.count (.char '<') + t.count (.char '(') + t.count (.char '[') + t.count (.char '{') := by
  induction t with
  | nil => rfl
  | cons c t ih =>
    rw [List.countP_cons, ih]
    simp only [List.count_cons, opens, beq_iff_eq]
    grind

theorem countP_closes (t : Text) : t.countP closes =
    t.count (.char '>') + t.count (.char ')') + t.count (.char ']') + t.count (.char '}') := by
  induction t with
  | nil => rfl
  | cons c t ih =>
    rw [List.countP_cons, ih]
    simp only [List.count_cons, closes, beq_iff_eq]
    grind

/-- Outside quotes a scan counts the brackets. -/
theorem foldl_step (h : ∀ c ∈ t, isQuote c = false) :
    t.foldl step ⟨n, none⟩ = ⟨n + t.countP opens - t.countP closes, none⟩ := by
  induction t generalizing n with
  | nil => simp
  | cons c t ih =>
    obtain ⟨hc, ht⟩ := List.forall_mem_cons.mp h
    have hstep : step ⟨n, none⟩ c =
        ⟨n + (if opens c then 1 else 0) - (if closes c then 1 else 0), none⟩ := by
      unfold step
      simp only [hc]
      grind [opens, closes]
    rw [List.foldl_cons, hstep, ih ht, List.countP_cons, List.countP_cons]
    congr 1
    grind

/-- A scan that starts deeper stays as much deeper. -/
theorem foldl_step_add (t : Text) (n k : Int) (q : Option CodePoint) :
    t.foldl step ⟨n + k, q⟩ =
      ⟨(t.foldl step ⟨n, q⟩).depth + k, (t.foldl step ⟨n, q⟩).quote⟩ := by
  induction t generalizing n q with
  | nil => rfl
  | cons c t ih =>
    have hstep : step ⟨n + k, q⟩ c = ⟨(step ⟨n, q⟩ c).depth + k, (step ⟨n, q⟩ c).quote⟩ := by
      unfold step
      dsimp only
      split
      · split <;> rfl
      · split
        · rfl
        · split
          · rw [Int.add_right_comm]
          · split
            · rw [Int.sub_eq_add_neg, Int.add_right_comm, ← Int.sub_eq_add_neg]
            · rfl
    rw [List.foldl_cons, List.foldl_cons, hstep, ih]

end Nesting

/-- A text in which no comma separates is not split, and the scan goes on where the text leaves
it. -/
theorem splitFrom_append (h : s.intact t = true) :
    splitFrom s (t ++ r) = (splitFrom (t.foldl Nesting.step s) r).modifyHead (t ++ ·) := by
  induction t generalizing s with
  | nil =>
    rw [List.nil_append, List.foldl_nil]
    cases splitFrom s r <;> rfl
  | cons c t ih =>
    rw [Nesting.intact, Bool.and_eq_true, Bool.not_eq_true'] at h
    rw [List.cons_append, splitFrom, if_neg (by simp [h.1]), ih h.2, List.foldl_cons,
      List.modifyHead_modifyHead]
    rfl

theorem Nesting.Closed.splitFrom_append (h : s.Closed t) (r : Text) :
    splitFrom s (t ++ r) = (splitFrom s r).modifyHead (t ++ ·) := by
  rw [Parameter.splitFrom_append h.intact, h.foldl_step]

/-- The first part of a text is intact, and it is the whole text or a comma follows it where the
scan is at its start again. -/
theorem splitFrom_eq_cons_iff {p : Text} {ps : List Text} :
    splitFrom s t = p :: ps ↔ s.intact p = true ∧ (ps = [] ∧ t = p ∨
      ∃ r, t = p ++ .char ',' :: r ∧ p.foldl Nesting.step s = {} ∧ splitFrom {} r = ps) := by
  constructor
  · intro h
    induction t generalizing s p with
    | nil =>
      obtain ⟨rfl, rfl⟩ := List.cons.inj h
      exact ⟨rfl, .inl ⟨rfl, rfl⟩⟩
    | cons c t ih =>
      rw [splitFrom] at h
      split at h
      · rename_i hc
        obtain ⟨rfl, rfl⟩ := Nesting.separates_iff.mp hc
        obtain ⟨rfl, rfl⟩ := List.cons.inj h
        exact ⟨rfl, .inr ⟨t, rfl, rfl, rfl⟩⟩
      · rename_i hc
        obtain ⟨q, qs, hq⟩ := List.exists_cons_of_ne_nil (splitFrom_ne_nil (s.step c) t)
        rw [hq, List.modifyHead_cons] at h
        obtain ⟨rfl, rfl⟩ := List.cons.inj h
        obtain ⟨hi, hrest⟩ := ih hq
        refine ⟨by rw [Nesting.intact, hi]; simpa using hc, ?_⟩
        rcases hrest with ⟨hqs, rfl⟩ | ⟨r, rfl, hs, hr⟩
        · exact .inl ⟨hqs, rfl⟩
        · exact .inr ⟨r, rfl, hs, hr⟩
  · rintro ⟨hi, ⟨rfl, rfl⟩ | ⟨r, rfl, hs, rfl⟩⟩
    · have h := splitFrom_append (r := []) hi
      rwa [List.append_nil, splitFrom, List.modifyHead_cons, List.append_nil] at h
    · rw [splitFrom_append hi, hs]
      simp [splitFrom, Nesting.separates]

/-- Splitting undoes joining by commas where every part but the last is closed and the last one is
intact. -/
theorem split_eq_concat_iff {front : List Text} :
    split t = front ++ [last] ↔ List.intercalate [.char ','] (front ++ [last]) = t ∧
      (∀ p ∈ front, Nesting.Closed {} p) ∧ Nesting.intact {} last = true := by
  rw [split]
  induction front generalizing t with
  | nil =>
    rw [List.nil_append, splitFrom_eq_cons_iff]
    constructor
    · rintro ⟨hi, ⟨-, rfl⟩ | ⟨r, -, -, hr⟩⟩
      · exact ⟨by simp, by simp, hi⟩
      · exact absurd hr (splitFrom_ne_nil _ r)
    · rintro ⟨hjoin, -, hi⟩
      exact ⟨hi, .inl ⟨rfl, by simpa using hjoin.symm⟩⟩
  | cons p front ih =>
    have hjoin : List.intercalate [.char ','] (p :: front ++ [last]) =
        p ++ .char ',' :: List.intercalate [.char ','] (front ++ [last]) := by
      cases front <;> simp [List.intercalate_cons_cons]
    rw [List.cons_append, splitFrom_eq_cons_iff, List.forall_mem_cons, ← List.cons_append, hjoin]
    constructor
    · rintro ⟨hi, ⟨hnil, -⟩ | ⟨r, rfl, hs, hr⟩⟩
      · simp at hnil
      · obtain ⟨rfl, hfront, hlast⟩ := ih.mp hr
        exact ⟨rfl, ⟨⟨hi, hs⟩, hfront⟩, hlast⟩
    · rintro ⟨rfl, ⟨hp, hfront⟩, hlast⟩
      exact ⟨hp.intact, .inr ⟨_, rfl, hp.foldl_step, ih.mpr ⟨rfl, hfront, hlast⟩⟩⟩

/-- Closed texts that are joined by commas are split into those texts. -/
theorem split_intercalate {ts : List Text} (h : ∀ p ∈ t :: ts, Nesting.Closed {} p) :
    split (List.intercalate [.char ','] (t :: ts)) = t :: ts := by
  have hcut := List.dropLast_concat_getLast (List.cons_ne_nil t ts)
  rw [← hcut] at h ⊢
  exact split_eq_concat_iff.mpr ⟨rfl, fun p hp => h p (List.mem_append_left _ hp),
    (h _ (List.mem_append_right _ List.mem_cons_self)).intact⟩

/-- Whether the text has a comma at depth zero outside quotes, for a scan from its start. -/
def HasSeparator (t : Text) : Prop :=
  ∃ x y, t = x ++ .char ',' :: y ∧ x.foldl Nesting.step ⟨0, none⟩ = ⟨0, none⟩

theorem intact_start_iff : Nesting.intact {} t = true ↔ ¬HasSeparator t := by
  rw [Nesting.intact_iff]
  exact ⟨fun h ⟨x, y, ht, hs⟩ => h x y ht hs, fun h x y ht hs => h ⟨x, y, ht, hs⟩⟩

theorem closed_start_iff :
    Nesting.Closed {} t ↔ ¬HasSeparator t ∧ t.foldl Nesting.step ⟨0, none⟩ = ⟨0, none⟩ := by
  rw [← intact_start_iff]
  exact ⟨fun h => ⟨h.intact, h.foldl_step⟩, fun h => ⟨h.1, h.2⟩⟩

/-- Splitting inverts joining by commas. The parts of a text, joined, are the text; none of them has
a separator, and behind each but the last the scan is back at depth zero outside quotes. No other
list of such parts gives the text. -/
theorem split_inverts_joining (t : Text) (ps : List Text) :
    split t = ps ↔ ∃ front last, ps = front ++ [last] ∧ List.intercalate [.char ','] ps = t ∧
      (∀ p ∈ front, ¬HasSeparator p ∧ p.foldl Nesting.step ⟨0, none⟩ = ⟨0, none⟩) ∧
      ¬HasSeparator last := by
  constructor
  · rintro rfl
    have hne : split t ≠ [] := splitFrom_ne_nil {} t
    have hparts := (List.dropLast_concat_getLast hne).symm
    have hsplit := split_eq_concat_iff.mp hparts
    simp only [closed_start_iff, intact_start_iff, ← hparts] at hsplit
    exact ⟨_, _, hparts, hsplit⟩
  · rintro ⟨front, last, rfl, hsplit⟩
    rw [split_eq_concat_iff]
    simpa only [closed_start_iff, intact_start_iff] using hsplit

/-- Brackets and quotes hide commas, and a bracket that nothing opens hides them until the next
opening one. -/
example : split "Map<int, A> m = '\"', char c, x>, y<" =
    (["Map<int, A> m = '\"'", " char c", " x>, y<"] : List Text) := by
  decide

end CSharpActions.Parameter
