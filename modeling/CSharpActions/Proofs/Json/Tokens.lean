import CSharpActions.Json.Parser
import CSharpActions.Json.Printer
import CSharpActions.Proofs.Text.Plain
import Mathlib.Data.List.Chain
import Mathlib.Data.List.TakeWhile

/-!
# Strings and integers of JSON documents

What is written for a string or an integer is read back. A text that keeps the two halves of a pair
apart cannot be written, since its escapes would be read as one character; no text that is read
does so.
-/
namespace CSharpActions

open Text.Utf8 (Encodable)

/-- No half of a surrogate pair stands right before the half that completes it. -/
def Text.Joined (t : Text) : Prop :=
  t.IsChain fun c d => ¬(Json.isHighSurrogate c.toNat = true ∧ Json.isLowSurrogate d.toNat = true)

instance (t : Text) : Decidable t.Joined := inferInstanceAs (Decidable (List.IsChain _ t))

namespace Text.Joined

variable {c : CodePoint} {t : Text}

theorem nil : Text.Joined [] := List.IsChain.nil

theorem cons_iff : Text.Joined (c :: t) ↔
    (∀ d ∈ t.head?, ¬(Json.isHighSurrogate c.toNat = true ∧ Json.isLowSurrogate d.toNat = true)) ∧
      t.Joined := List.isChain_cons

end Text.Joined

namespace Json

variable {c d : CodePoint} {s r t : Text} {n fuel : Nat}

theorem isHighSurrogate_iff : isHighSurrogate n = true ↔ 0xD800 ≤ n ∧ n < 0xDC00 := by
  simp [isHighSurrogate]

theorem isLowSurrogate_iff : isLowSurrogate n = true ↔ 0xDC00 ≤ n ∧ n < 0xE000 := by
  simp [isLowSurrogate]

theorem toNat_lt (c : CodePoint) : c.toNat < 0x110000 := by
  cases c with
  | char c =>
    have hv : c.toNat.isValidChar := c.valid
    change c.toNat < _
    rcases hv with h | h <;> omega
  | surrogate offset =>
    have ho := offset.isLt
    simp only [CodePoint.toNat]
    omega

/-! ## Escapes -/

theorem hexValue?_hexDigit : ∀ n < 16, hexValue? (Text.hexDigit n) = some n := by decide

theorem hexValue?_lt (h : hexValue? c = some n) : n < 16 := by
  have hle : ∀ a b : CodePoint, decide (a ≤ b) = true ↔ a.toNat ≤ b.toNat :=
    fun _ _ => decide_eq_true_iff
  unfold hexValue? at h
  simp only [Bool.and_eq_true, hle] at h
  have hrange : ∀ a : Char, (CodePoint.char a).toNat = a.toNat := fun _ => rfl
  simp only [hrange] at h
  split_ifs at h with h₁ h₂ h₃
  · have h9 : ('9' : Char).toNat = 57 := rfl
    have := Option.some.inj h
    omega
  · have hf : ('f' : Char).toNat = 102 := rfl
    have := Option.some.inj h
    omega
  · have hF : ('F' : Char).toNat = 70 := rfl
    have := Option.some.inj h
    omega

theorem hex4?_hex (h : n < 0x10000) (r : Text) : hex4? (Text.hex 4 n ++ r) = some (n, r) := by
  have hmod : ∀ k, hexValue? (Text.hexDigit (k % 16)) = some (k % 16) :=
    fun k => hexValue?_hexDigit _ (Nat.mod_lt k (by omega))
  have hvalue : ((n / 16 / 16 / 16 % 16 * 16 + n / 16 / 16 % 16) * 16 + n / 16 % 16) * 16 + n % 16 =
      n := by omega
  simp only [Text.hex, List.nil_append, List.cons_append, hex4?, hmod]
  exact congrArg (fun k => some (k, r)) hvalue

theorem exists_of_hex4? (h : hex4? t = some (n, r)) :
    n < 0x10000 ∧ ∃ a b c d, t = a :: b :: c :: d :: r := by
  unfold hex4? at h
  split at h
  · rename_i a b c d s
    obtain ⟨x, hx, h⟩ := Option.bind_eq_some_iff.mp h
    obtain ⟨y, hy, h⟩ := Option.bind_eq_some_iff.mp h
    obtain ⟨z, hz, h⟩ := Option.bind_eq_some_iff.mp h
    obtain ⟨u, hu, h⟩ := Option.bind_eq_some_iff.mp h
    have hx := hexValue?_lt hx
    have hy := hexValue?_lt hy
    have hz := hexValue?_lt hz
    have hu := hexValue?_lt hu
    cases h
    exact ⟨by omega, a, b, c, d, rfl⟩
  · simp at h

/-- The text begins with the escape of the second half of a pair. -/
def LowEscape (t : Text) : Prop :=
  ∃ u low r, t = .char '\\' :: .char 'u' :: u ∧ hex4? u = some (low, r) ∧
    isLowSurrogate low = true

theorem not_lowEscape_of_head? (h : ∀ c ∈ t.head?, c ≠ .char '\\') : ¬LowEscape t := by
  rintro ⟨u, low, r, rfl, -, -⟩
  exact h (.char '\\') rfl rfl

theorem unicodeEscape?_of_hex4? (h : hex4? t = some (n, r))
    (hr : isHighSurrogate n = true → ¬LowEscape r) : unicodeEscape? t = some (.ofNat n, r) := by
  rw [unicodeEscape?, h]
  simp only [Option.bind_eq_bind, Option.bind_some]
  split
  · rename_i hhigh
    split
    · rename_i u
      split
      · rename_i low v hlow
        split
        · rename_i hl
          exact absurd ⟨u, low, v, rfl, hlow, hl⟩ (hr hhigh)
        · rfl
      · rfl
    · rfl
  · rfl

theorem unicodeEscape?_pair {high low : Nat} (hh : hex4? t = some (high, .char '\\' :: .char 'u' :: s))
    (hl : hex4? s = some (low, r)) (hhigh : isHighSurrogate high = true)
    (hlow : isLowSurrogate low = true) :
    unicodeEscape? t = some (.ofNat (0x10000 + (high - 0xD800) * 0x400 + (low - 0xDC00)), r) := by
  rw [unicodeEscape?, hh]
  simp only [Option.bind_eq_bind, Option.bind_some, hhigh, if_true, hl, hlow]
  rfl

/-- An escape is one character of four digits, which is not the first half of a pair that follows,
or both halves of a pair. -/
theorem unicodeEscape?_cases (h : unicodeEscape? t = some (c, r)) :
    (∃ n, hex4? t = some (n, r) ∧ c = .ofNat n ∧ (isHighSurrogate n = true → ¬LowEscape r)) ∨
      0x10000 ≤ c.toNat ∧ r <:+ t := by
  unfold unicodeEscape? at h
  obtain ⟨⟨high, u⟩, hh, h⟩ := Option.bind_eq_some_iff.mp h
  dsimp only at h
  split_ifs at h with hhigh
  · split at h
    · rename_i s
      split at h
      · rename_i low v hl
        split_ifs at h with hlow
        · obtain ⟨hc, hr⟩ := Prod.mk.inj (Option.some.inj h)
          obtain ⟨-, x, y, z, u, rfl⟩ := exists_of_hex4? hh
          obtain ⟨-, x', y', z', u', rfl⟩ := exists_of_hex4? hl
          rw [isHighSurrogate_iff] at hhigh
          rw [isLowSurrogate_iff] at hlow
          refine Or.inr ⟨?_, ?_⟩
          · rw [← hc, CodePoint.toNat_ofNat (by omega)]
            omega
          · rw [← hr]
            exact ⟨[x, y, z, u, .char '\\', .char 'u', x', y', z', u'], by simp⟩
        · cases h
          refine Or.inl ⟨high, hh, rfl, fun _ hlow' => ?_⟩
          obtain ⟨u, low', v', he, hl', hlow'⟩ := hlow'
          simp only [List.cons.injEq, true_and] at he
          subst he
          rw [hl] at hl'
          cases hl'
          exact hlow hlow'
      · rename_i hl
        cases h
        refine Or.inl ⟨high, hh, rfl, fun _ hlow' => ?_⟩
        obtain ⟨u, low', v', he, hl', -⟩ := hlow'
        simp only [List.cons.injEq, true_and] at he
        subst he
        simp [hl] at hl'
    · rename_i hne
      cases h
      exact Or.inl ⟨high, hh, rfl, fun _ ⟨u, _, _, he, _, _⟩ => hne u he⟩
  · cases h
    exact Or.inl ⟨high, hh, rfl, fun hh' => absurd hh' hhigh⟩

/-! ## Strings -/

theorem stringBody_plain (hq : c ≠ .char '"') (hb : c ≠ .char '\\') (hc : 0x20 ≤ c.toNat) (fuel : Nat)
    (r : Text) : stringBody (fuel + 1) (c :: r) = (stringBody fuel r).map fun (s, r) => (c :: s, r) := by
  rw [stringBody.eq_def]
  split
  · simp_all
  · simp_all
  · simp_all
  · simp_all
  · simp_all
  · rename_i heq
    obtain ⟨rfl, rfl⟩ := List.cons.inj heq
    rw [if_neg (Nat.not_lt.mpr hc)]
    simp_all

theorem stringBody_escape {e : CodePoint} (he : simpleEscape? e = some d) (fuel : Nat) (r : Text) :
    stringBody (fuel + 1) (.char '\\' :: e :: r) =
      (stringBody fuel r).map fun (s, r) => (d :: s, r) := by
  have hu : e ≠ .char 'u' := by
    rintro rfl
    simp [simpleEscape?] at he
  simp only [stringBody, hu, if_false, he]

theorem stringBody_unicode (hu : unicodeEscape? t = some (d, r)) (fuel : Nat) :
    stringBody (fuel + 1) (.char '\\' :: .char 'u' :: t) =
      (stringBody fuel r).map fun (s, r) => (d :: s, r) := by
  simp only [stringBody, if_true, hu]

theorem simpleEscape?_of_shortEscape? {e : CodePoint} (h : shortEscape? c = some e) :
    simpleEscape? e = some c := by
  unfold shortEscape? at h
  split at h
  all_goals simp only [Option.some.injEq, reduceCtorEq] at h
  all_goals
    subst h
    rfl

/-- A character that has no short escape and is plain stands for itself. -/
theorem ne_of_shortEscape?_eq_none (h : shortEscape? c = none) :
    c ≠ .char '"' ∧ c ≠ .char '\\' := by
  refine ⟨?_, ?_⟩ <;>
  · rintro rfl
    simp [shortEscape?] at h

theorem not_lowEscape_append_escaped (hs : ∀ d ∈ s.head?, isLowSurrogate d.toNat = false) (r : Text) :
    ¬LowEscape (s.flatMap (escapeChar plainAscii) ++ .char '"' :: r) := by
  cases s with
  | nil => exact not_lowEscape_of_head? (by simp)
  | cons c s =>
    have hc : isLowSurrogate c.toNat = false := hs c rfl
    have hlt := toNat_lt c
    rw [List.flatMap_cons, List.append_assoc, escapeChar]
    generalize s.flatMap (escapeChar plainAscii) ++ .char '"' :: r = rest
    split
    · rename_i e he
      rintro ⟨u, low, v, heq, -, -⟩
      simp only [List.cons_append, List.nil_append, List.cons.injEq, true_and] at heq
      rw [heq.1] at he
      have hd := simpleEscape?_of_shortEscape? he
      simp [simpleEscape?] at hd
    · rename_i he
      split
      · refine not_lowEscape_of_head? ?_
        simpa using (ne_of_shortEscape?_eq_none he).2
      · rintro ⟨u, low, v, heq, hhex, hlow⟩
        rw [unicodeEscape] at heq
        split at heq
        · rename_i hn
          have hu : u = Text.hex 4 c.toNat ++ rest := by
            simpa [String.text] using heq.symm
          rw [hu, hex4?_hex hn] at hhex
          simp only [Option.some.injEq, Prod.mk.injEq] at hhex
          rw [hhex.1] at hc
          simp [hc] at hlow
        · -- above U+FFFF the first half comes first
          have hu : u = Text.hex 4 (0xD800 + (c.toNat - 0x10000) / 0x400) ++ ("\\u".text ++
              (Text.hex 4 (0xDC00 + (c.toNat - 0x10000) % 0x400) ++ rest)) := by
            simpa [String.text] using heq.symm
          rw [hu, hex4?_hex (by omega)] at hhex
          simp only [Option.some.injEq, Prod.mk.injEq] at hhex
          rw [isLowSurrogate_iff] at hlow
          omega

/-- A character is read back from what is written for it. -/
theorem stringBody_escapeChar (c : CodePoint) (fuel : Nat) {r : Text}
    (hr : isHighSurrogate c.toNat = true → ¬LowEscape r) :
    stringBody (fuel + 1) (escapeChar plainAscii c ++ r) =
      (stringBody fuel r).map fun (s, r) => (c :: s, r) := by
  have hlt := toNat_lt c
  rw [escapeChar]
  split
  · rename_i e he
    exact stringBody_escape (simpleEscape?_of_shortEscape? he) fuel r
  · rename_i he
    obtain ⟨hq, hb⟩ := ne_of_shortEscape?_eq_none he
    split
    · rename_i hp
      rw [plainAscii, Bool.and_eq_true, decide_eq_true_iff] at hp
      exact stringBody_plain hq hb hp.1 fuel r
    · rw [unicodeEscape]
      split
      · rename_i hn
        have hu := unicodeEscape?_of_hex4? (hex4?_hex hn r) hr
        rw [CodePoint.ofNat_toNat] at hu
        exact stringBody_unicode hu fuel
      · rename_i hn
        have hvalue : 0x10000 + (0xD800 + (c.toNat - 0x10000) / 0x400 - 0xD800) * 0x400 +
            (0xDC00 + (c.toNat - 0x10000) % 0x400 - 0xDC00) = c.toNat := by omega
        have hu := unicodeEscape?_pair
          (hex4?_hex (n := 0xD800 + (c.toNat - 0x10000) / 0x400) (by omega) (.char '\\' :: .char 'u' ::
            (Text.hex 4 (0xDC00 + (c.toNat - 0x10000) % 0x400) ++ r)))
          (hex4?_hex (n := 0xDC00 + (c.toNat - 0x10000) % 0x400) (by omega) r)
          (isHighSurrogate_iff.mpr (by omega)) (isLowSurrogate_iff.mpr (by omega))
        rw [hvalue, CodePoint.ofNat_toNat] at hu
        have hread := stringBody_unicode hu fuel
        simpa [String.text] using hread

/-- A string is read back from its written form. -/
theorem stringBody_written (hs : s.Joined) (hf : s.length < fuel) (r : Text) :
    stringBody fuel (s.flatMap (escapeChar plainAscii) ++ .char '"' :: r) = .ok (s, r) := by
  induction s generalizing fuel with
  | nil =>
    obtain ⟨fuel, rfl⟩ := Nat.exists_eq_add_of_lt hf
    rw [List.flatMap_nil, List.nil_append, stringBody]
  | cons c s ih =>
    obtain ⟨hc, hs⟩ := Text.Joined.cons_iff.mp hs
    cases fuel with
    | zero => simp at hf
    | succ fuel =>
      rw [List.length_cons] at hf
      have hread := ih hs (show s.length < fuel by omega)
      rw [List.flatMap_cons, List.append_assoc, stringBody_escapeChar c fuel, hread]
      · rfl
      · intro hhigh
        refine not_lowEscape_append_escaped (fun d hd => ?_) r
        rw [Bool.eq_false_iff]
        exact fun hlow => hc d hd ⟨hhigh, hlow⟩

theorem not_isSurrogate_of_encodable (h : Encodable (c :: t)) :
    isHighSurrogate c.toNat = false ∧ isLowSurrogate c.toNat = false := by
  have hc : c.char?.isSome = true := h c List.mem_cons_self
  cases c with
  | char c =>
    have hv : c.toNat.isValidChar := c.valid
    rw [Bool.eq_false_iff, Bool.eq_false_iff, Ne, Ne, isHighSurrogate_iff, isLowSurrogate_iff]
    change ¬(0xD800 ≤ c.toNat ∧ c.toNat < 0xDC00) ∧ ¬(0xDC00 ≤ c.toNat ∧ c.toNat < 0xE000)
    rcases hv with h | h <;> omega
  | surrogate offset => simp [CodePoint.char?] at hc

theorem toNat_of_simpleEscape? {e : CodePoint} (h : simpleEscape? e = some d) : d.toNat < 0x80 := by
  unfold simpleEscape? at h
  split at h
  all_goals simp only [Option.some.injEq, reduceCtorEq] at h
  all_goals
    subst h
    decide

/-- What is known of a string that was read from the front of `t`. -/
structure StringRead (t s r : Text) : Prop where
  suffix : r <:+ t
  joined : s.Joined
  low : ∀ d ∈ s.head?, isLowSurrogate d.toNat = true → LowEscape t

theorem StringRead.cons (h : StringRead r s u) (hr : r <:+ t)
    (hhigh : isHighSurrogate c.toNat = true → ¬LowEscape r)
    (hlow : isLowSurrogate c.toNat = true → LowEscape t) : StringRead t (c :: s) u where
  suffix := h.suffix.trans hr
  joined := Text.Joined.cons_iff.mpr
    ⟨fun d hd ⟨hc, hl⟩ => hhigh hc (h.low d hd hl), h.joined⟩
  low := by
    intro d hd
    obtain rfl := Option.some.inj hd
    exact hlow

/-- The step of the reader after the character `c`. -/
theorem exists_of_map_cons {x : Parsed Text}
    (h : (x.map fun (s, r) => (c :: s, r)) = .ok (s, r)) : ∃ s', x = .ok (s', r) ∧ s = c :: s' := by
  cases x with
  | error e => simp [Except.map] at h
  | ok p =>
    obtain ⟨s', r'⟩ := p
    obtain ⟨rfl, rfl⟩ := Prod.mk.inj (Except.ok.inj h)
    exact ⟨s', rfl, rfl⟩

/-- A string that is read keeps no halves of a pair apart, since no encoded text holds a half. -/
theorem stringRead_of_stringBody (ht : Encodable t) (h : stringBody fuel t = .ok (s, r)) :
    StringRead t s r := by
  induction fuel generalizing t s with
  | zero => simp [stringBody] at h
  | succ fuel ih =>
    rw [stringBody.eq_def] at h
    split at h
    · simp at h
    · simp at h
    · obtain ⟨rfl, rfl⟩ := Prod.mk.inj (Except.ok.inj h)
      exact ⟨List.suffix_cons _ _, Text.Joined.nil, by simp⟩
    · simp at h
    · rename_i fuel' c u heq
      obtain rfl := Nat.succ.inj heq
      have hsuffix : u <:+ .char '\\' :: c :: u := ⟨[.char '\\', c], rfl⟩
      have hu : Encodable u := ht.of_subset hsuffix.subset
      split at h
      · rename_i hc
        subst hc
        split at h
        · rename_i d v hd
          obtain ⟨s', hs, rfl⟩ := exists_of_map_cons h
          rcases unicodeEscape?_cases hd with ⟨n, hhex, rfl, hhigh⟩ | ⟨hbig, hv⟩
          · obtain ⟨hn, a, b, c, e, rfl⟩ := exists_of_hex4? hhex
            have hsuffix : v <:+ .char '\\' :: .char 'u' :: a :: b :: c :: e :: v :=
              ⟨[.char '\\', .char 'u', a, b, c, e], rfl⟩
            have hto : (CodePoint.ofNat n).toNat = n := CodePoint.toNat_ofNat (by omega)
            refine (ih (ht.of_subset hsuffix.subset) hs).cons hsuffix ?_ ?_
            · rwa [hto]
            · rw [hto]
              exact fun hlow => ⟨_, n, v, rfl, hhex, hlow⟩
          · have hsuffix : v <:+ .char '\\' :: .char 'u' :: u :=
              hv.trans ⟨[.char '\\', .char 'u'], rfl⟩
            refine (ih (hu.of_subset hv.subset) hs).cons hsuffix ?_ ?_
            · rw [isHighSurrogate_iff]
              omega
            · rw [isLowSurrogate_iff]
              omega
        · simp at h
      · split at h
        · rename_i d hd
          obtain ⟨s', hs, rfl⟩ := exists_of_map_cons h
          have hsmall := toNat_of_simpleEscape? hd
          refine (ih hu hs).cons hsuffix ?_ ?_
          · rw [isHighSurrogate_iff]
            omega
          · rw [isLowSurrogate_iff]
            omega
        · simp at h
    · rename_i fuel' c u _ _ _ heq
      obtain rfl := Nat.succ.inj heq
      split at h
      · simp at h
      · obtain ⟨s', hs, rfl⟩ := exists_of_map_cons h
        obtain ⟨hhigh, hlow⟩ := not_isSurrogate_of_encodable ht
        refine (ih (ht.of_subset (List.subset_cons_self _ _)) hs).cons
          (List.suffix_cons _ _) ?_ ?_
        · simp [hhigh]
        · simp [hlow]

/-! ## Integers -/

open Text (isPlainDigit natOfDigits)

/-- What follows cannot belong to an integer. -/
def EndsInteger (t : Text) : Prop :=
  ∀ c ∈ t.head?, isPlainDigit c = false ∧ c ≠ .char '.' ∧ c ≠ .char 'e' ∧ c ≠ .char 'E'

theorem eq_zero_of_ofNat_eq_cons {u : Text} (h : Text.ofNat n = .char '0' :: u) : n = 0 ∧ u = [] := by
  have hdigit : ∀ m < 10, Text.digitChar m = .char '0' → m = 0 := by decide
  induction n using Text.ofNat.induct generalizing u with
  | case1 n hn =>
    rw [Text.ofNat, if_pos hn] at h
    obtain ⟨hc, hu⟩ := List.cons.inj h
    exact ⟨hdigit n hn hc, hu.symm⟩
  | case2 n hn ih =>
    rw [Text.ofNat, if_neg hn] at h
    obtain ⟨c, v, hv⟩ := List.exists_cons_of_ne_nil (Text.ofNat_ne_nil (n / 10))
    rw [hv, List.cons_append] at h
    obtain ⟨rfl, -⟩ := List.cons.inj h
    have hzero := (ih hv).1
    omega

theorem takeWhile_ofNat_append (n : Nat) (hr : EndsInteger r) :
    (Text.ofNat n ++ r).takeWhile isPlainDigit = Text.ofNat n := by
  rw [List.takeWhile_append_of_pos fun c hc => Text.isPlainDigit_of_mem_ofNat hc]
  cases r with
  | nil => simp
  | cons c r =>
    have hc := (hr c rfl).1
    simp [hc]

/-- The leading digits of a text, of which none follows a zero at the beginning. -/
def wholeDigits (t : Text) : Text :=
  if t.head? = some (.char '0') then ['0'] else t.takeWhile isPlainDigit

theorem wholeDigits_ofNat_append (n : Nat) (hr : EndsInteger r) :
    wholeDigits (Text.ofNat n ++ r) = Text.ofNat n := by
  obtain ⟨c, v, hv⟩ := List.exists_cons_of_ne_nil (Text.ofNat_ne_nil n)
  unfold wholeDigits
  split
  · rename_i heq
    rw [hv, List.cons_append, List.head?_cons, Option.some.injEq] at heq
    subst heq
    rw [hv, (eq_zero_of_ofNat_eq_cons hv).2]
  · exact takeWhile_ofNat_append n hr

theorem isPlainDigit_of_mem_wholeDigits (h : c ∈ wholeDigits t) : isPlainDigit c = true := by
  unfold wholeDigits at h
  split_ifs at h
  · rw [List.mem_singleton.mp h]
    decide
  · exact List.mem_takeWhile_imp h

/-- What a number is by its leading digits and by what follows them. -/
def numberAfter (negative : Bool) (whole r : Text) : Parsed Json :=
  let (part, r, hasPart) :=
    match fraction r with
    | some (digits, r) => (digits, r, true)
    | none => ([], r, false)
  let (power, r, hasPower) :=
    match exponent r with
    | some (n, r) => (n, r, true)
    | none => (0, r, false)
  if hasPart || hasPower then
    .ok (.float (Binary64.ofDecimal negative (natOfDigits (whole ++ part)) (power - part.length)), r)
  else if Text.maxDigits < whole.length then .error (.limit (.digits whole.length))
  else .ok (.int (if negative then -(natOfDigits whole : Int) else natOfDigits whole), r)

theorem number_eq (negative : Bool) (t : Text) : number negative t =
    if (wholeDigits t).isEmpty then .error .malformed
    else numberAfter negative (wholeDigits t) (t.drop (wholeDigits t).length) := by
  unfold number
  dsimp only
  split
  · rfl
  · rename_i hne
    have hw : wholeDigits t = t.takeWhile isPlainDigit := by
      refine if_neg fun h => ?_
      obtain ⟨u, rfl⟩ := List.head?_eq_some_iff.mp h
      exact hne u rfl
    rw [hw]
    rfl

theorem fraction_eq_none (hr : EndsInteger r) : fraction r = none := by
  unfold fraction
  split
  · exact absurd rfl (hr (.char '.') rfl).2.1
  · rfl

theorem exponent_eq_none (hr : EndsInteger r) : exponent r = none := by
  unfold exponent
  split
  · rename_i c u
    obtain ⟨-, -, he, hE⟩ := hr c rfl
    rw [if_neg (by simp [he, hE])]
  · rfl

/-- The digits of a number that has not too many are read back. -/
theorem number_ofNat_append (hn : Text.Readable n) (hr : EndsInteger r) (negative : Bool) :
    number negative (Text.ofNat n ++ r) = .ok (.int (if negative then -(n : Int) else n), r) := by
  have hlen : ¬ Text.maxDigits < (Text.ofNat n).length :=
    Nat.not_lt.mpr ((Text.length_ofNat_le_iff (by decide)).mpr hn)
  have hne : (Text.ofNat n).isEmpty = false := by simpa using Text.ofNat_ne_nil n
  rw [number_eq, wholeDigits_ofNat_append n hr, hne, if_neg Bool.false_ne_true, List.drop_left,
    numberAfter]
  simp only [fraction_eq_none hr, exponent_eq_none hr, hlen, Text.natOfDigits_ofNat,
    Bool.false_eq_true, Bool.or_self, if_false]

theorem natOfDigits_lt (h : ∀ c ∈ t, isPlainDigit c = true) : natOfDigits t < 10 ^ t.length := by
  have hfold : ∀ a, t.foldl (fun n c => 10 * n + (c.toNat - 48)) a < (a + 1) * 10 ^ t.length := by
    induction t with
    | nil => simp
    | cons c t ih =>
      intro a
      have hc := Text.isPlainDigit_iff.mp (h c List.mem_cons_self)
      have hstep : 10 * a + (c.toNat - 48) + 1 ≤ (a + 1) * 10 := by omega
      rw [List.foldl_cons, List.length_cons, Nat.pow_succ, Nat.mul_comm (10 ^ t.length),
        ← Nat.mul_assoc]
      exact Nat.lt_of_lt_of_le (ih (fun x hx => h x (List.mem_cons_of_mem c hx)) _)
        (Nat.mul_le_mul_right _ hstep)
  simpa [natOfDigits] using hfold 0

theorem suffix_of_fraction {p : Text × Text} (h : fraction t = some p) : p.2 <:+ t := by
  unfold fraction at h
  split at h
  · dsimp only at h
    split_ifs at h
    cases h
    exact (List.dropWhile_suffix _).trans (List.suffix_cons _ _)
  · simp at h

theorem suffix_of_exponent {p : Int × Text} (h : exponent t = some p) : p.2 <:+ t := by
  have hdigits : ∀ s u : Text, ∀ e : CodePoint, s <:+ u → s.dropWhile isPlainDigit <:+ e :: u :=
    fun _ _ _ hs => ((List.dropWhile_suffix _).trans hs).trans (List.suffix_cons _ _)
  unfold exponent at h
  split at h
  · rename_i e u
    split_ifs at h
    dsimp only at h
    split at h
    all_goals
      dsimp only at h
      rw [Option.ite_none_left_eq_some] at h
      rw [← congrArg Prod.snd (Option.some.inj h.2)]
    · exact hdigits _ _ e (List.suffix_cons _ _)
    · exact hdigits _ _ e (List.suffix_cons _ _)
    · exact hdigits _ _ e List.suffix_rfl
  · simp at h

theorem numberAfter_cases {negative : Bool} {whole : Text} {v : Json}
    (hw : ∀ c ∈ whole, isPlainDigit c = true) (h : numberAfter negative whole t = .ok (v, r)) :
    r <:+ t ∧ ((∃ n, v = .int n ∧ Text.Readable n) ∨ ∃ x, v = .float x) := by
  have hlt : ¬Text.maxDigits < whole.length → natOfDigits whole < 10 ^ Text.maxDigits := fun hlen =>
    Nat.lt_of_lt_of_le (natOfDigits_lt hw) (Nat.pow_le_pow_right (by omega) (Nat.not_lt.mp hlen))
  unfold numberAfter at h
  cases hf : fraction t with
  | some p =>
    have hp := suffix_of_fraction hf
    cases he : exponent p.2 with
    | some q =>
      simp only [hf, he, Bool.or_self, if_true] at h
      obtain ⟨rfl, rfl⟩ := Prod.mk.inj (Except.ok.inj h)
      exact ⟨(suffix_of_exponent he).trans hp, Or.inr ⟨_, rfl⟩⟩
    | none =>
      simp only [hf, he, Bool.or_false, if_true] at h
      obtain ⟨rfl, rfl⟩ := Prod.mk.inj (Except.ok.inj h)
      exact ⟨hp, Or.inr ⟨_, rfl⟩⟩
  | none =>
    cases he : exponent t with
    | some q =>
      simp only [hf, he, Bool.or_true, if_true] at h
      obtain ⟨rfl, rfl⟩ := Prod.mk.inj (Except.ok.inj h)
      exact ⟨suffix_of_exponent he, Or.inr ⟨_, rfl⟩⟩
    | none =>
      simp only [hf, he, Bool.or_self, Bool.false_eq_true, if_false] at h
      split_ifs at h with hlen hneg
      all_goals
        obtain ⟨rfl, rfl⟩ := Prod.mk.inj (Except.ok.inj h)
        refine ⟨List.suffix_rfl, Or.inl ⟨_, rfl, ?_⟩⟩
        simpa [Text.Readable] using hlt hlen

/-- A number that is read is an integer with not too many digits or a floating point number. -/
theorem number_cases {negative : Bool} {v : Json} (h : number negative t = .ok (v, r)) :
    r <:+ t ∧ ((∃ n, v = .int n ∧ Text.Readable n) ∨ ∃ x, v = .float x) := by
  rw [number_eq] at h
  split_ifs at h
  obtain ⟨hr, hv⟩ := numberAfter_cases (fun c hc => isPlainDigit_of_mem_wholeDigits hc) h
  exact ⟨hr.trans (List.drop_suffix _ _), hv⟩

end Json

end CSharpActions
