import CSharpActions.Layout.Code
import Mathlib.Data.List.Infix
import Mathlib.Logic.Relation

/-!
# The steps of the scan

The scan of a line goes on from mark to mark: in every mode, the first of its marks that the rest
of the line begins with says what is given out and where the scan stands next. A step in front of a
place therefore depends on what stands from there on only through the marks that the place cuts.
-/
namespace CSharpActions.Layout

/-- What makes the scan do something else than go on to the next character. -/
structure Mark where
  text : Text
  /-- How many characters the scan passes over; all of the line if there is no number. -/
  length : Option Nat
  out : Text
  mode : Mode

/-- The marks of a mode, those that count before others first. -/
def marks : Mode → List Mark
  | .carried .code => [
      ⟨['/', '/'], none, [], .carried .code⟩,
      ⟨['/', '*'], some 2, [], .carried .block⟩,
      ⟨['"', '"', '"'], some 3, [], .carried .raw⟩,
      ⟨['@', '"'], some 2, [], .carried .verbatim⟩,
      ⟨['$', '@', '"'], some 3, [], .carried .verbatim⟩,
      ⟨['@', '$', '"'], some 3, [], .carried .verbatim⟩,
      ⟨['"'], some 1, [], .quoted '"'⟩,
      ⟨['\''], some 1, [], .quoted '\''⟩]
  | .carried .block => [⟨['*', '/'], some 2, [], .carried .code⟩]
  | .carried .raw => [⟨['"', '"', '"'], some 3, ['"', '"'], .carried .code⟩]
  | .carried .verbatim => [
      ⟨['"', '"'], some 2, [], .carried .verbatim⟩,
      ⟨['"'], some 1, ['"', '"'], .carried .code⟩]
  | .quoted q => [
      ⟨['\\'], some 2, [], .quoted q⟩,
      ⟨[q], some 1, [q, q], .carried .code⟩]

/-- The first mark that the text begins with. -/
def markAt (m : Mode) (t : Text) : Option Mark := (marks m).find? (·.text <+: t)

/-- What one step gives out, and where the scan stands after it. -/
def step (m : Mode) (t : Text) : Text × Mode × Text :=
  match markAt m t with
  | some k => (k.out, k.mode, k.length.elim [] t.drop)
  | none => (if m = .carried .code then t.take 1 else [], m, t.tail)

theorem markAt_eq_none_iff {m : Mode} {t : Text} :
    markAt m t = none ↔ ∀ k ∈ marks m, ¬k.text <+: t := by
  simp [markAt]

@[simp] theorem emit_nil (rest : Text × Carry) : emit [] rest = rest := rfl

@[simp] theorem emit_emit (a b : Text) (rest : Text × Carry) :
    emit a (emit b rest) = emit (a ++ b) rest := by
  simp [emit]

/-! ## The scan by its steps -/

/-- Where no mark stands, the scan goes on to the next character. -/
theorem scan_of_markAt_eq_none {m : Mode} {c : CodePoint} {r : Text}
    (h : markAt m (c :: r) = none) :
    scan m (c :: r) = emit (if m = .carried .code then [c] else []) (scan m r) := by
  rw [markAt_eq_none_iff] at h
  rcases m with (_ | _ | _ | _) | q
  all_goals
    simp [marks, List.cons_prefix_iff] at h
    rw [scan]
    all_goals simp_all

/-- Any other step is the one of a mark. -/
theorem scan_of_markAt_eq_some {m : Mode} {t : Text} {k : Mark} (h : markAt m t = some k) :
    scan m t = emit k.out (scan k.mode (k.length.elim [] t.drop)) := by
  rcases m with (_ | _ | _ | _) | q
  all_goals
    simp [markAt, marks, List.find?_cons_eq_some, List.cons_prefix_iff] at h
  · rcases h with ⟨⟨r, rfl⟩, rfl⟩ | ⟨-, ⟨⟨r, rfl⟩, rfl⟩ | ⟨-, ⟨⟨r, rfl⟩, rfl⟩ |
      ⟨hraw, ⟨⟨r, rfl⟩, rfl⟩ | ⟨-, ⟨⟨r, rfl⟩, rfl⟩ | ⟨-, ⟨⟨r, rfl⟩, rfl⟩ |
      ⟨-, ⟨⟨r, rfl⟩, rfl⟩ | ⟨-, ⟨r, rfl⟩, rfl⟩⟩⟩⟩⟩⟩⟩
    all_goals simp_all [scan]
  · obtain ⟨⟨r, rfl⟩, rfl⟩ := h
    simp [scan]
  · rcases h with ⟨⟨r, rfl⟩, rfl⟩ | ⟨hpair, ⟨r, rfl⟩, rfl⟩
    all_goals simp_all [scan]
  · obtain ⟨⟨r, rfl⟩, rfl⟩ := h
    simp [scan]
  · rcases h with ⟨⟨r, rfl⟩, rfl⟩ | ⟨hescape, ⟨r, rfl⟩, rfl⟩
    · cases r <;> simp [scan, emit]
    · simp_all [scan]

theorem scan_eq_of_step {m : Mode} {t : Text} (ht : t ≠ []) :
    scan m t = emit (step m t).1 (scan (step m t).2.1 (step m t).2.2) := by
  rw [step]
  cases h : markAt m t with
  | some k => exact scan_of_markAt_eq_some h
  | none =>
    obtain ⟨c, r, rfl⟩ := List.exists_cons_of_ne_nil ht
    exact scan_of_markAt_eq_none h

theorem length_ne_zero {m : Mode} {k : Mark} (hk : k ∈ marks m) : k.length ≠ some 0 := by
  revert k
  rcases m with (_ | _ | _ | _) | q <;> simp [marks]

theorem length_step_lt (m : Mode) {t : Text} (ht : t ≠ []) :
    (step m t).2.2.length < t.length := by
  have hpos := List.length_pos_of_ne_nil ht
  rw [step]
  cases h : markAt m t with
  | none =>
    rw [List.length_tail]
    omega
  | some k =>
    have hk := length_ne_zero (List.mem_of_find?_eq_some h)
    cases hl : k.length with
    | none => simpa [hl] using hpos
    | some n =>
      have hn : n ≠ 0 := fun hn => hk (by rw [hl, hn])
      simp only [hl, Option.elim_some, List.length_drop]
      omega

/-- One step takes the scan from a mode and the rest of the line to others. -/
def Advances (a b : Mode × Text) : Prop := a.2 ≠ [] ∧ (step a.1 a.2).2 = b

/-- The steps of the scan take it from a mode and a text to others. -/
abbrev Reaches : Mode × Text → Mode × Text → Prop := Relation.ReflTransGen Advances

theorem Reaches.eq_or_length_lt {a b : Mode × Text} (h : Reaches a b) :
    a = b ∨ b.2.length < a.2.length := by
  induction h with
  | refl => exact Or.inl rfl
  | @tail b c _ hbc ih =>
    obtain ⟨hb, rfl⟩ := hbc
    have hlt := length_step_lt b.1 hb
    rcases ih with rfl | ih
    · exact Or.inr hlt
    · exact Or.inr (hlt.trans ih)

/-! ## Places that the steps do not tell apart -/

/-- No mark that the beginning of either text would complete is completed by only one of them. -/
def Alike (y y' : Text) : Prop :=
  ∀ m, ∀ k ∈ marks m, ∀ s, s <:+ k.text.tail → (s <+: y ↔ s <+: y')

/-- What is left of a mark, if that is more than one character. -/
def longTails : List Text := [['"', '"'], ['@', '"'], ['$', '"']]

theorem length_le_one_or_mem_longTails {m : Mode} {k : Mark} (hk : k ∈ marks m) {s : Text}
    (hs : s <:+ k.text.tail) : s.length ≤ 1 ∨ s ∈ longTails := by
  cases m with
  | carried c =>
    have hall : ∀ k ∈ marks (.carried c), ∀ s ∈ k.text.tail.tails,
        s.length ≤ 1 ∨ s ∈ longTails := by
      cases c <;> decide
    exact hall k hk s ((List.mem_tails s k.text.tail).mpr hs)
  | quoted q =>
    have htail : k.text.tail = [] := by
      simp only [marks, List.mem_cons, List.not_mem_nil, or_false] at hk
      rcases hk with rfl | rfl <;> rfl
    rw [htail, List.suffix_nil] at hs
    simp [hs]

theorem prefix_append_congr {w y y' : Text} (h : ∀ s, s <:+ w → (s <+: y ↔ s <+: y')) (u : Text) :
    w <+: u ++ y ↔ w <+: u ++ y' := by
  induction u generalizing w with
  | nil => exact h w (List.suffix_refl w)
  | cons c u ih =>
    cases w with
    | nil => simp
    | cons d w =>
      rw [List.cons_append, List.cons_append, List.cons_prefix_cons, List.cons_prefix_cons,
        ih fun s hs => h s (hs.trans (List.suffix_cons d w))]

variable {m : Mode} {u y y' : Text}

theorem markAt_append_congr (h : Alike y y') (hu : u ≠ []) :
    markAt m (u ++ y) = markAt m (u ++ y') := by
  obtain ⟨c, u, rfl⟩ := List.exists_cons_of_ne_nil hu
  rw [markAt, markAt, ← List.head?_filter, ← List.head?_filter]
  refine congrArg List.head? (List.filter_congr fun k hk => ?_)
  rw [decide_eq_decide]
  cases hw : k.text with
  | nil => simp
  | cons d w =>
    rw [List.cons_append, List.cons_append, List.cons_prefix_cons, List.cons_prefix_cons,
      prefix_append_congr fun s hs => h m k hk s (by rwa [hw])]

/-- A step in front of a place either passes over it or does not depend on what stands there. -/
theorem step_append (hy : y ≠ []) (hu : u ≠ []) :
    (step m (u ++ y)).2.2.length < y.length ∨ ∃ out m' v, ∀ y', Alike y y' →
      step m (u ++ y') = (out, m', v ++ y') := by
  have hpos := List.length_pos_of_ne_nil hy
  cases hk : markAt m (u ++ y) with
  | none =>
    obtain ⟨c, u, rfl⟩ := List.exists_cons_of_ne_nil hu
    refine Or.inr ⟨if m = .carried .code then [c] else [], m, u, fun y' h => ?_⟩
    rw [step, ← markAt_append_congr h hu, hk]
    rfl
  | some k =>
    cases hl : k.length with
    | none =>
      refine Or.inl ?_
      rw [step, hk]
      simpa [hl] using hpos
    | some n =>
      rcases Nat.lt_or_ge u.length n with hn | hn
      · refine Or.inl ?_
        rw [step, hk]
        simp only [hl, Option.elim_some, List.length_drop, List.length_append]
        omega
      · refine Or.inr ⟨k.out, k.mode, u.drop n, fun y' h => ?_⟩
        rw [step, ← markAt_append_congr h hu, hk]
        simp only [hl, Option.elim_some]
        rw [List.drop_append_of_le_length hn]

theorem Alike.refl (y : Text) : Alike y y := fun _ _ _ _ _ => Iff.rfl

/-- Where the scan comes to a place, what it has given out does not depend on what stands there. -/
theorem exists_scan_append {m' : Mode} (hy : y ≠ []) (hr : Reaches (m, u ++ y) (m', y)) :
    ∃ out, ∀ y', Alike y y' → scan m (u ++ y') = emit out (scan m' y') := by
  generalize ha : (m, u ++ y) = a at hr
  induction hr using Relation.ReflTransGen.head_induction_on generalizing m u with
  | refl =>
    obtain ⟨rfl, hu⟩ := Prod.mk.inj ha
    obtain rfl := List.append_left_eq_self.mp hu
    exact ⟨[], fun _ _ => rfl⟩
  | @head a b hab hb ih =>
    subst ha
    obtain ⟨-, rfl⟩ := hab
    -- steps only shorten the rest, so that none before the place passes over it
    have hlen : y.length ≤ (step m (u ++ y)).2.2.length := by
      rcases Reaches.eq_or_length_lt hb with hb | hb
      · rw [hb]
      · exact hb.le
    have hu : u ≠ [] := by
      rintro rfl
      exact absurd (length_step_lt m hy) (Nat.not_lt.mpr hlen)
    rcases step_append hy hu (m := m) with hpass | ⟨out, m₁, v, hs⟩
    · exact absurd hpass (Nat.not_lt.mpr hlen)
    · obtain ⟨out', ho⟩ := ih (by rw [hs y (.refl y)])
      refine ⟨out ++ out', fun y' h => ?_⟩
      rw [scan_eq_of_step (by simp [hu]), hs y' h, ho y' h, emit_emit]

/-- The places begin with the same character, and no mark ends with the characters after it. -/
theorem alike_cons {c : CodePoint} {z z' : Text} (hc : c ≠ .char '@' ∧ c ≠ .char '$')
    (hz : c = .char '"' → z.head? ≠ some (.char '"') ∧ z'.head? ≠ some (.char '"')) :
    Alike (c :: z) (c :: z') := by
  intro m k hk s hs
  rcases length_le_one_or_mem_longTails hk hs with hlen | hlong
  · match s, hlen with
    | [], _ => simp
    | [d], _ => simp [List.cons_prefix_cons]
  · -- such a tail begins with a quote or with a character that the places do not begin with
    obtain ⟨d, hd, rfl⟩ : ∃ d : CodePoint, (d = '"' ∨ d = '@' ∨ d = '$') ∧ s = [d, '"'] := by
      simpa [longTails] using hlong
    have hhead : ∀ z : Text, z.head? ≠ some (.char '"') → ¬[CodePoint.char '"'] <+: z := by
      rintro _ hz ⟨r, rfl⟩
      exact hz rfl
    rw [List.cons_prefix_cons, List.cons_prefix_cons]
    refine and_congr_right ?_
    rintro rfl
    rcases hd with rfl | rfl | rfl
    · exact iff_of_false (hhead z (hz rfl).1) (hhead z' (hz rfl).2)
    · exact absurd rfl hc.1
    · exact absurd rfl hc.2

end CSharpActions.Layout
