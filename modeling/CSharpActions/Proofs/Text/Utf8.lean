import CSharpActions.Text.Newline
import CSharpActions.Text.Utf8
import Mathlib.Data.List.Basic

/-!
# Encoding and decoding

Decoding gives back what was encoded, and bytes without a faulty unit are the encoding of what they
decode to. What is decoded with replacements can always be encoded, but gives the same bytes only
if there was no faulty unit.
-/
namespace CSharpActions.Text.Utf8

/-- No half of a surrogate pair stands in the text. -/
def Encodable (t : Text) : Prop := ∀ c ∈ t, c.char?.isSome = true

instance (t : Text) : Decidable (Encodable t) :=
  inferInstanceAs (Decidable (∀ c ∈ t, c.char?.isSome = true))

theorem encodable_append {s t : Text} : Encodable (s ++ t) ↔ Encodable s ∧ Encodable t :=
  List.forall_mem_append

theorem Encodable.of_subset {s t : Text} (h : Encodable t) (hs : s ⊆ t) : Encodable s :=
  fun c hc => h c (hs hc)

theorem Encodable.exists_chars {t : Text} (h : Encodable t) :
    ∃ cs : List Char, t = cs.map .char := by
  induction t with
  | nil => exact ⟨[], rfl⟩
  | cons c t ih =>
    obtain ⟨cs, rfl⟩ := ih fun x hx => h x (List.mem_cons_of_mem c hx)
    cases c with
    | char x => exact ⟨x :: cs, rfl⟩
    | surrogate o => simpa [CodePoint.char?] using h _ List.mem_cons_self

theorem mapM_char?_map (cs : List Char) : (cs.map CodePoint.char).mapM CodePoint.char? = some cs := by
  induction cs with
  | nil => rfl
  | cons c cs ih => simp [List.mapM_cons, CodePoint.char?, ih]

theorem encode?_map_char (cs : List Char) :
    encode? (cs.map .char) = some (cs.flatMap String.utf8EncodeChar) := by
  rw [encode?, mapM_char?_map, Option.map_some]

theorem mapM_char?_of_mem {t : Text} {o : Fin 2048} (h : CodePoint.surrogate o ∈ t) :
    t.mapM CodePoint.char? = none := by
  induction t with
  | nil => simp at h
  | cons c t ih =>
    rw [List.mapM_cons]
    rcases List.mem_cons.mp h with rfl | h
    · rfl
    · rw [ih h]
      cases c <;> rfl

theorem Encodable.of_encode? {t : Text} {bytes : Bytes} (h : encode? t = some bytes) :
    Encodable t := by
  intro c hc
  cases c with
  | char x => rfl
  | surrogate o => simp [encode?, mapM_char?_of_mem hc] at h

theorem Encodable.exists_bytes {t : Text} (h : Encodable t) : ∃ bytes, encode? t = some bytes := by
  obtain ⟨cs, rfl⟩ := h.exists_chars
  exact ⟨_, encode?_map_char cs⟩

theorem encode?_eq_none {t : Text} (h : ¬ Encodable t) : encode? t = none := by
  cases he : encode? t with
  | none => rfl
  | some bytes => exact absurd (Encodable.of_encode? he) h

theorem encode?_append {s t : Text} {a b : Bytes} (hs : encode? s = some a)
    (ht : encode? t = some b) : encode? (s ++ t) = some (a ++ b) := by
  obtain ⟨cs, rfl⟩ := (Encodable.of_encode? hs).exists_chars
  obtain ⟨ds, rfl⟩ := (Encodable.of_encode? ht).exists_chars
  rw [encode?_map_char, Option.some.injEq] at hs ht
  rw [← List.map_append, encode?_map_char, List.flatMap_append, hs, ht]

/-! ## One character -/

theorem lead?_cases {b : Nat} {l : Lead} (h : lead? b = some l) :
    (b < 0x80 ∧ l = ⟨b, 0x80, 0xBF, 0⟩) ∨
      (0xC2 ≤ b ∧ b ≤ 0xDF ∧ l = ⟨b - 0xC0, 0x80, 0xBF, 1⟩) ∨
      (0xE0 ≤ b ∧ b ≤ 0xEF ∧ l = ⟨b - 0xE0, if b = 0xE0 then 0xA0 else 0x80,
        if b = 0xED then 0x9F else 0xBF, 2⟩) ∨
      (0xF0 ≤ b ∧ b ≤ 0xF4 ∧ l = ⟨b - 0xF0, if b = 0xF0 then 0x90 else 0x80,
        if b = 0xF4 then 0x8F else 0xBF, 3⟩) := by
  unfold lead? at h
  grind

/-- The number that continuation bytes add to the bits of a lead. -/
def valueOf (bits : Nat) (tail : Bytes) : Nat :=
  tail.foldl (fun v b => v * 64 + (b.toNat - 0x80)) bits

@[simp] theorem valueOf_nil (bits : Nat) : valueOf bits [] = bits := rfl

@[simp] theorem valueOf_cons (bits : Nat) (b : UInt8) (tail : Bytes) :
    valueOf bits (b :: tail) = valueOf (bits * 64 + (b.toNat - 0x80)) tail := List.foldl_cons ..

/-- Continuation bytes, the first of which lies between `low` and `high`. -/
structure IsTail (low high : Nat) (tail : Bytes) : Prop where
  first : ∀ b ∈ tail.head?, low ≤ b.toNat ∧ b.toNat ≤ high
  later : ∀ b ∈ tail.drop 1, 0x80 ≤ b.toNat ∧ b.toNat ≤ 0xBF

theorem isTail_cons_iff {low high : Nat} {b : UInt8} {tail : Bytes} :
    IsTail low high (b :: tail) ↔ (low ≤ b.toNat ∧ b.toNat ≤ high) ∧ IsTail 0x80 0xBF tail := by
  constructor
  · rintro ⟨h₁, h₂⟩
    have h₂ : ∀ x ∈ tail, 0x80 ≤ x.toNat ∧ x.toNat ≤ 0xBF := by simpa using h₂
    exact ⟨by simpa using h₁, fun x hx => h₂ x (List.mem_of_mem_head? hx),
      fun x hx => h₂ x (List.mem_of_mem_drop hx)⟩
  · rintro ⟨h, h₁, h₂⟩
    refine ⟨by simpa using h, ?_⟩
    intro x hx
    cases tail with
    | nil => simp at hx
    | cons y tail =>
      rcases List.mem_cons.mp hx with rfl | hx
      · exact h₁ _ rfl
      · exact h₂ x hx

theorem isTail_nil (low high : Nat) : IsTail low high [] := ⟨by simp, by simp⟩

theorem complete_append {low high : Nat} {tail : Bytes} (h : IsTail low high tail) (bits : Nat)
    (r : Bytes) : complete bits low high tail.length (tail ++ r) =
      (some (.char (Char.ofNat (valueOf bits tail))), tail.length) := by
  induction tail generalizing bits low high with
  | nil => rfl
  | cons b tail ih =>
    obtain ⟨⟨h₁, h₂⟩, ht⟩ := isTail_cons_iff.mp h
    rw [List.length_cons, List.cons_append, complete, ih ht]
    simp [h₁, h₂]

theorem exists_tail_of_complete {bits low high count n : Nat} {r : Bytes} {c : CodePoint}
    (h : complete bits low high count r = (some c, n)) :
    ∃ tail rest, r = tail ++ rest ∧ tail.length = count ∧ n = count ∧ IsTail low high tail ∧
      c = .char (Char.ofNat (valueOf bits tail)) := by
  induction count generalizing bits low high n r with
  | zero =>
    obtain ⟨hc, hn⟩ := Prod.mk.inj h
    exact ⟨[], r, rfl, rfl, hn.symm, isTail_nil low high, (Option.some.inj hc).symm⟩
  | succ count ih =>
    cases r with
    | nil => simp [complete] at h
    | cons b r =>
      rw [complete] at h
      split at h
      · rename_i hb
        obtain ⟨hc, hn⟩ := Prod.mk.inj h
        have hb : low ≤ b.toNat ∧ b.toNat ≤ high := by simpa using hb
        obtain ⟨tail, rest, rfl, hl, hm, ht, hv⟩ := ih (Prod.ext hc (Eq.refl _))
        refine ⟨b :: tail, rest, List.cons_append.symm, ?_, ?_, isTail_cons_iff.mpr ⟨hb, ht⟩, ?_⟩
        · rw [List.length_cons, hl]
        · exact hn.symm.trans (congrArg (· + 1) hm)
        · rw [hv, valueOf_cons]
      · simp at h

/-- A byte and its continuation bytes that together stand for the character with number `v`. -/
inductive IsSequence (b : UInt8) (tail : Bytes) (v : Nat) : Prop where
  | intro (l : Lead) (lead : lead? b.toNat = some l) (count : l.count = tail.length)
      (isTail : IsTail l.low l.high tail) (value : valueOf l.bits tail = v)

theorem IsSequence.units_eq {b : UInt8} {tail : Bytes} {v : Nat} (h : IsSequence b tail v)
    (r : Bytes) : units (b :: (tail ++ r)) = some (.char (Char.ofNat v)) :: units r := by
  obtain ⟨l, hl, hc, ht, rfl⟩ := h
  rw [units, hl]
  simp only [hc, complete_append ht, List.drop_left]

theorem exists_sequence {b : UInt8} {l : Lead} {r : Bytes} {c : CodePoint} {n : Nat}
    (hl : lead? b.toNat = some l) (h : complete l.bits l.low l.high l.count r = (some c, n)) :
    ∃ tail v, IsSequence b tail v ∧ c = .char (Char.ofNat v) ∧ r = tail ++ r.drop n := by
  obtain ⟨tail, rest, rfl, hlen, rfl, ht, rfl⟩ := exists_tail_of_complete h
  refine ⟨tail, _, ⟨l, hl, hlen.symm, ht, rfl⟩, rfl, ?_⟩
  rw [← hlen, List.drop_left]

theorem toNat_ofNat_byte {n : Nat} (h : n < 256) : (UInt8.ofNat n).toNat = n :=
  Nat.mod_eq_of_lt h

/-- The bytes of a character are a sequence for it. -/
theorem isSequence_encodeChar (c : Char) :
    ∃ b tail, String.utf8EncodeChar c = b :: tail ∧ IsSequence b tail c.toNat := by
  have hv := c.valid
  simp only [UInt32.isValidChar, Nat.isValidChar] at hv
  have hn : c.toNat = c.val.toNat := rfl
  rw [hn]
  generalize hu : c.val.toNat = u at hv
  unfold String.utf8EncodeChar
  rw [hu]
  by_cases h1 : u ≤ 0x7f
  · refine ⟨_, [], if_pos h1, ⟨⟨u, 0x80, 0xBF, 0⟩, ?_, rfl, isTail_nil _ _, rfl⟩⟩
    rw [toNat_ofNat_byte (by omega), lead?, if_pos (by omega)]
  by_cases h2 : u ≤ 0x7ff
  · refine ⟨_, _, (if_neg h1).trans (if_pos h2), ⟨u / 64, 0x80, 0xBF, 1⟩, ?_, rfl, ?_, ?_⟩
    · rw [toNat_ofNat_byte (by omega)]
      unfold lead?
      grind
    · simp only [isTail_cons_iff, isTail_nil, UInt8.toNat_ofNat', and_true]
      omega
    · simp only [valueOf_cons, valueOf_nil, UInt8.toNat_ofNat']
      omega
  by_cases h3 : u ≤ 0xffff
  · refine ⟨_, _, (if_neg h1).trans ((if_neg h2).trans (if_pos h3)),
      ⟨u / 4096, if u / 4096 = 0 then 0xA0 else 0x80, if u / 4096 = 0xD then 0x9F else 0xBF, 2⟩,
      ?_, rfl, ?_, ?_⟩
    · rw [toNat_ofNat_byte (by omega)]
      unfold lead?
      grind
    · simp only [isTail_cons_iff, isTail_nil, UInt8.toNat_ofNat', and_true]
      split_ifs <;> omega
    · simp only [valueOf_cons, valueOf_nil, UInt8.toNat_ofNat']
      omega
  · refine ⟨_, _, (if_neg h1).trans ((if_neg h2).trans (if_neg h3)),
      ⟨u / 262144, if u / 262144 = 0 then 0x90 else 0x80,
        if u / 262144 = 4 then 0x8F else 0xBF, 3⟩, ?_, rfl, ?_, ?_⟩
    · rw [toNat_ofNat_byte (by omega)]
      unfold lead?
      grind
    · simp only [isTail_cons_iff, isTail_nil, UInt8.toNat_ofNat', and_true]
      split_ifs <;> omega
    · simp only [valueOf_cons, valueOf_nil, UInt8.toNat_ofNat']
      omega

theorem byte_ofNat_eq {b : UInt8} {n : Nat} (h : b.toNat = n) : UInt8.ofNat n = b := by
  rw [← h, UInt8.ofNat_toNat]

theorem toNat_ofNat_of_valid {v : Nat} (h : v.isValidChar) : (Char.ofNat v).val.toNat = v := by
  rw [Char.ofNat, dif_pos h]
  rfl

/-- Only the bytes of a character are a sequence. -/
theorem IsSequence.encodeChar_eq {b : UInt8} {tail : Bytes} {v : Nat} (h : IsSequence b tail v) :
    String.utf8EncodeChar (Char.ofNat v) = b :: tail := by
  obtain ⟨l, hl, hc, ht, rfl⟩ := h
  rcases lead?_cases hl with ⟨h₁, rfl⟩ | ⟨h₁, h₂, rfl⟩ | ⟨h₁, h₂, rfl⟩ | ⟨h₁, h₂, rfl⟩
  · obtain rfl := List.length_eq_zero_iff.mp hc.symm
    have hv : (valueOf b.toNat []).isValidChar := Or.inl (by simp only [valueOf_nil]; omega)
    unfold String.utf8EncodeChar
    rw [toNat_ofNat_of_valid hv, valueOf_nil, if_pos (by omega), byte_ofNat_eq rfl]
  · obtain ⟨x, rfl⟩ := List.length_eq_one_iff.mp hc.symm
    obtain ⟨hx, -⟩ := isTail_cons_iff.mp ht
    simp only [valueOf_cons, valueOf_nil] at hx ⊢
    unfold String.utf8EncodeChar
    rw [toNat_ofNat_of_valid (Or.inl (by omega)), if_neg (by omega), if_pos (by omega),
      byte_ofNat_eq (b := b) (by omega), byte_ofNat_eq (b := x) (by omega)]
  · obtain ⟨x, y, rfl⟩ := List.length_eq_two.mp hc.symm
    obtain ⟨hx, ht⟩ := isTail_cons_iff.mp ht
    obtain ⟨hy, -⟩ := isTail_cons_iff.mp ht
    dsimp only at hx
    -- the bounds of the second byte exclude numbers that fewer bytes hold, and surrogates
    have hx : (0x80 ≤ x.toNat ∧ x.toNat ≤ 0xBF) ∧ (b.toNat = 0xE0 → 0xA0 ≤ x.toNat) ∧
        (b.toNat = 0xED → x.toNat ≤ 0x9F) := by
      split_ifs at hx <;> omega
    have hv : ((b.toNat - 0xE0) * 64 + (x.toNat - 0x80)) * 64 + (y.toNat - 0x80) < 0xD800 ∨
        0xDFFF < ((b.toNat - 0xE0) * 64 + (x.toNat - 0x80)) * 64 + (y.toNat - 0x80) := by
      omega
    simp only [valueOf_cons, valueOf_nil]
    unfold String.utf8EncodeChar
    rw [toNat_ofNat_of_valid (hv.imp_right fun h => ⟨h, by omega⟩), if_neg (by omega),
      if_neg (by omega), if_pos (by omega), byte_ofNat_eq (b := b) (by omega),
      byte_ofNat_eq (b := x) (by omega), byte_ofNat_eq (b := y) (by omega)]
  · obtain ⟨x, y, z, rfl⟩ := List.length_eq_three.mp hc.symm
    obtain ⟨hx, ht⟩ := isTail_cons_iff.mp ht
    obtain ⟨hy, ht⟩ := isTail_cons_iff.mp ht
    obtain ⟨hz, -⟩ := isTail_cons_iff.mp ht
    dsimp only at hx
    -- here they exclude numbers that fewer bytes hold, and those beyond the last character
    have hx : (0x80 ≤ x.toNat ∧ x.toNat ≤ 0xBF) ∧ (b.toNat = 0xF0 → 0x90 ≤ x.toNat) ∧
        (b.toNat = 0xF4 → x.toNat ≤ 0x8F) := by
      split_ifs at hx <;> omega
    simp only [valueOf_cons, valueOf_nil]
    unfold String.utf8EncodeChar
    rw [toNat_ofNat_of_valid (Or.inr ⟨by omega, by omega⟩), if_neg (by omega), if_neg (by omega),
      if_neg (by omega), byte_ofNat_eq (b := b) (by omega), byte_ofNat_eq (b := x) (by omega),
      byte_ofNat_eq (b := y) (by omega), byte_ofNat_eq (b := z) (by omega)]

/-! ## Whole texts -/

theorem units_encodeChars_append (cs : List Char) (r : Bytes) :
    units (cs.flatMap String.utf8EncodeChar ++ r) =
      (cs.map fun c => some (CodePoint.char c)) ++ units r := by
  induction cs with
  | nil => rfl
  | cons c cs ih =>
    obtain ⟨b, tail, hb, hs⟩ := isSequence_encodeChar c
    rw [List.flatMap_cons, hb, List.cons_append, List.cons_append, List.append_assoc, hs.units_eq,
      ih, Char.ofNat_toNat, List.map_cons, List.cons_append]

theorem units_nil : units [] = [] := by rw [units]

theorem encode?_of_units {bytes : Bytes} {t : Text} (h : units bytes = t.map some) :
    encode? t = some bytes := by
  induction bytes using units.induct generalizing t with
  | case1 =>
    rw [units] at h
    rw [List.map_eq_nil_iff.mp h.symm]
    rfl
  | case2 b r hl ih =>
    rw [units, hl] at h
    cases t <;> simp at h
  | case3 b r l hl c n hc ih =>
    rw [units, hl] at h
    simp only [hc] at h
    cases t with
    | nil => simp at h
    | cons x t =>
      obtain ⟨rfl, ht⟩ := List.cons_eq_cons.mp h
      obtain ⟨tail, v, hs, rfl, hr⟩ := exists_sequence hl hc
      have hx : encode? [.char (Char.ofNat v)] = some (b :: tail) := by
        rw [← hs.encodeChar_eq]
        exact (encode?_map_char [Char.ofNat v]).trans (by simp)
      rw [hr]
      exact encode?_append hx (ih ht)

theorem decode?_eq_some_iff {bytes : Bytes} {t : Text} :
    decode? bytes = some t ↔ units bytes = t.map some := by
  rw [decode?]
  generalize units bytes = us
  induction us generalizing t with
  | nil => cases t <;> simp
  | cons u us ih =>
    cases u with
    | none => cases t <;> simp [List.mapM_cons]
    | some c =>
      simp only [List.mapM_cons, id_eq, Option.bind_eq_bind, Option.bind_some, Option.pure_def,
        Option.bind_eq_some_iff, ih]
      cases t with
      | nil => simp
      | cons x t =>
        constructor
        · rintro ⟨s, rfl, hs⟩
          obtain ⟨rfl, rfl⟩ := List.cons_eq_cons.mp (Option.some.inj hs)
          rfl
        · intro h
          obtain ⟨hx, rfl⟩ := List.cons_eq_cons.mp h
          exact ⟨t, rfl, by rw [Option.some.inj hx]⟩

theorem units_of_encode? {t : Text} {bytes : Bytes} (h : encode? t = some bytes) :
    units bytes = t.map some := by
  obtain ⟨cs, rfl⟩ := (Encodable.of_encode? h).exists_chars
  rw [encode?_map_char, Option.some.injEq] at h
  have hu := units_encodeChars_append cs []
  rw [List.append_nil, h, units_nil, List.append_nil] at hu
  rw [hu, List.map_map]
  rfl

/-- A text is encoded as the bytes that it can be decoded from. -/
theorem decode?_eq_some_iff_encode? {bytes : Bytes} {t : Text} :
    decode? bytes = some t ↔ encode? t = some bytes := by
  rw [decode?_eq_some_iff]
  exact ⟨encode?_of_units, units_of_encode?⟩

theorem decodeLossy_of_decode? {bytes : Bytes} {t : Text} (h : decode? bytes = some t) :
    decodeLossy bytes = t := by
  rw [decodeLossy, decode?_eq_some_iff.mp h, List.map_map]
  exact List.map_id t

theorem decodeLossy_of_encode? {t : Text} {bytes : Bytes} (h : encode? t = some bytes) :
    decodeLossy bytes = t := decodeLossy_of_decode? (decode?_eq_some_iff_encode?.mpr h)

theorem char?_of_mem_units {bytes : Bytes} {c : CodePoint} (h : some c ∈ units bytes) :
    c.char?.isSome = true := by
  induction bytes using units.induct with
  | case1 => simp [units] at h
  | case2 b r hl ih =>
    rw [units, hl] at h
    exact ih (by simpa using h)
  | case3 b r l hl u n hu ih =>
    rw [units, hl] at h
    simp only [hu] at h
    rcases List.mem_cons.mp h with rfl | h
    · obtain ⟨tail, v, -, rfl, -⟩ := exists_sequence hl hu
      rfl
    · exact ih h

theorem encodable_decodeLossy (bytes : Bytes) : Encodable (decodeLossy bytes) := by
  intro c hc
  obtain ⟨u, hu, rfl⟩ := List.mem_map.mp hc
  cases u with
  | none => rfl
  | some c => exact char?_of_mem_units hu

theorem encodable_dropMark {t : Text} (h : Encodable t) : Encodable (dropMark t) := by
  cases t with
  | nil => exact h
  | cons c r =>
    rw [dropMark]
    split
    · exact (List.forall_mem_cons.mp h).2
    · exact h

theorem encodable_unifyNewlines {t : Text} (h : Encodable t) : Encodable (unifyNewlines t) := by
  fun_induction unifyNewlines t with
  | case1 => exact h
  | case2 r ih =>
    have hr : Encodable r := h.of_subset (List.subset_cons_of_subset _ (List.subset_cons_self _ r))
    exact List.forall_mem_cons.mpr ⟨rfl, ih hr⟩
  | case3 c r _ ih =>
    refine List.forall_mem_cons.mpr ⟨?_, ih (h.of_subset (List.subset_cons_self c r))⟩
    split
    · rfl
    · exact h c List.mem_cons_self

/-- Only bytes without a faulty unit come back. -/
theorem encode?_decodeLossy_iff {bytes : Bytes} :
    encode? (decodeLossy bytes) = some bytes ↔ (decode? bytes).isSome = true := by
  constructor
  · intro h
    rw [decode?_eq_some_iff_encode?.mpr h]
    rfl
  · intro h
    obtain ⟨t, ht⟩ := Option.isSome_iff_exists.mp h
    rw [decodeLossy_of_decode? ht]
    exact decode?_eq_some_iff_encode?.mp ht

/-! ## Parts of a text -/

/-- The bytes are those of a text. -/
def Faultless (bytes : Bytes) : Prop := ∃ t, encode? t = some bytes

theorem faultless_iff {bytes : Bytes} : Faultless bytes ↔ (decode? bytes).isSome = true := by
  rw [Option.isSome_iff_exists]
  exact exists_congr fun t => decode?_eq_some_iff_encode?.symm

theorem Faultless.exists_chars {bytes : Bytes} (h : Faultless bytes) :
    ∃ cs : List Char, bytes = cs.flatMap String.utf8EncodeChar := by
  obtain ⟨t, ht⟩ := h
  obtain ⟨cs, rfl⟩ := (Encodable.of_encode? ht).exists_chars
  rw [encode?_map_char, Option.some.injEq] at ht
  exact ⟨cs, ht.symm⟩

theorem faultless_encodeChars (cs : List Char) : Faultless (cs.flatMap String.utf8EncodeChar) :=
  ⟨_, encode?_map_char cs⟩

theorem Faultless.append {x y : Bytes} (hx : Faultless x) (hy : Faultless y) :
    Faultless (x ++ y) := by
  obtain ⟨s, hs⟩ := hx
  obtain ⟨t, ht⟩ := hy
  exact ⟨s ++ t, encode?_append hs ht⟩

theorem exists_of_encode?_append {s t : Text} {bytes : Bytes} (h : encode? (s ++ t) = some bytes) :
    ∃ x y, encode? s = some x ∧ encode? t = some y ∧ bytes = x ++ y := by
  obtain ⟨hs, ht⟩ := encodable_append.mp (Encodable.of_encode? h)
  obtain ⟨x, hx⟩ := hs.exists_bytes
  obtain ⟨y, hy⟩ := ht.exists_bytes
  rw [encode?_append hx hy, Option.some.injEq] at h
  exact ⟨x, y, hx, hy, h.symm⟩

theorem Faultless.of_append {x y : Bytes} (h : Faultless (x ++ y)) (hx : Faultless x) :
    Faultless y := by
  obtain ⟨t, ht⟩ := h
  obtain ⟨cs, rfl⟩ := hx.exists_chars
  have hu := units_of_encode? ht
  rw [units_encodeChars_append] at hu
  obtain ⟨t₁, t₂, rfl, -, hy⟩ := List.map_eq_append_iff.mp hu.symm
  exact ⟨t₂, encode?_of_units hy.symm⟩

theorem IsTail.later_of_mem {low high : Nat} {tail : Bytes} (h : IsTail low high tail)
    (hl : 0x80 ≤ low) (hh : high ≤ 0xBF) {b : UInt8} (hb : b ∈ tail) :
    0x80 ≤ b.toNat ∧ b.toNat ≤ 0xBF := by
  cases tail with
  | nil => simp at hb
  | cons y tail =>
    rcases List.mem_cons.mp hb with rfl | hb
    · obtain ⟨h₁, h₂⟩ := h.first _ rfl
      omega
    · exact h.later b hb

/-- No byte that continues a character begins one. -/
theorem IsSequence.lead?_eq_none {b : UInt8} {tail : Bytes} {v : Nat} (h : IsSequence b tail v)
    {y : UInt8} (hy : y ∈ tail) : lead? y.toNat = none := by
  obtain ⟨l, hl, -, ht, -⟩ := h
  have hlow : 0x80 ≤ l.low ∧ l.high ≤ 0xBF := by
    rcases lead?_cases hl with ⟨-, rfl⟩ | ⟨-, -, rfl⟩ | ⟨-, -, rfl⟩ | ⟨-, -, rfl⟩
    · exact ⟨Nat.le_refl _, Nat.le_refl _⟩
    · exact ⟨Nat.le_refl _, Nat.le_refl _⟩
    · dsimp only
      split_ifs <;> omega
    · dsimp only
      split_ifs <;> omega
  obtain ⟨h₁, h₂⟩ := ht.later_of_mem hlow.1 hlow.2 hy
  unfold lead?
  grind

/-- Where a character begins, the one before it has ended. -/
theorem exists_split_of_lead {cs : List Char} {x r : Bytes} {b : UInt8} {l : Lead}
    (hb : lead? b.toNat = some l) (h : cs.flatMap String.utf8EncodeChar = x ++ b :: r) :
    ∃ cs₁ cs₂, cs = cs₁ ++ cs₂ ∧ x = cs₁.flatMap String.utf8EncodeChar := by
  induction cs generalizing x with
  | nil => simp at h
  | cons c cs ih =>
    obtain ⟨b₀, tail, hc, hs⟩ := isSequence_encodeChar c
    cases x with
    | nil => exact ⟨[], c :: cs, rfl, rfl⟩
    | cons y x =>
      rw [List.flatMap_cons, hc, List.cons_append, List.cons_append] at h
      obtain ⟨rfl, ht⟩ := List.cons_eq_cons.mp h
      rcases List.append_eq_append_iff.mp ht with ⟨w, rfl, hw⟩ | ⟨w, rfl, hw⟩
      · obtain ⟨cs₁, cs₂, rfl, rfl⟩ := ih hw
        exact ⟨c :: cs₁, cs₂, rfl, by rw [List.flatMap_cons, hc, List.cons_append]⟩
      · cases w with
        | nil => exact ⟨[c], cs, rfl, by simp [hc]⟩
        | cons z w =>
          -- the lead would stand inside of the first character
          obtain ⟨rfl, -⟩ := List.cons_eq_cons.mp hw
          have hnone := hs.lead?_eq_none (y := b) (by simp)
          simp [hb] at hnone

/-- What stands before the characters of a text is a text. -/
theorem Faultless.of_append_left {x p r : Bytes} (h : Faultless (x ++ (p ++ r)))
    (hp : Faultless p) (hne : p ≠ []) : Faultless x := by
  obtain ⟨cs, hcs⟩ := h.exists_chars
  obtain ⟨ps, rfl⟩ := hp.exists_chars
  cases ps with
  | nil => simp at hne
  | cons c ps =>
    obtain ⟨b, tail, hb, l, hl, -⟩ := isSequence_encodeChar c
    rw [List.flatMap_cons, hb] at hcs
    obtain ⟨cs₁, cs₂, -, rfl⟩ := exists_split_of_lead hl hcs.symm
    exact faultless_encodeChars cs₁

end CSharpActions.Text.Utf8
