import CSharpActions.Proofs.Json.Bounds
import CSharpActions.Proofs.Json.Sorted

/-!
# Reading what was written

A value within the bounds of the reader is read back from its document, with the fields of its
objects in the order of their names. Floating point numbers are left aside.
-/
namespace CSharpActions.Json

open Text.Utf8 (Encodable)

/-- There is no floating point number in the value. -/
inductive FloatFree : Json → Prop
  | null : FloatFree .null
  | bool (b : Bool) : FloatFree (.bool b)
  | int (n : Int) : FloatFree (.int n)
  | str (s : Text) : FloatFree (.str s)
  | arr {items : List Json} (h : ∀ v ∈ items, FloatFree v) : FloatFree (.arr items)
  | obj {fields : List (Text × Json)} (h : ∀ f ∈ fields, FloatFree f.2) : FloatFree (.obj fields)

variable {room fuel level : Nat} {c : CodePoint} {s t r rest separator : Text} {v : Json}
  {w : Writer} {ws : List Writer}

theorem FloatFree.sorted (h : FloatFree v) : FloatFree v.sorted := by
  induction h with
  | null => exact .null
  | bool b => exact .bool b
  | int n => exact .int n
  | str s => exact .str s
  | arr _ ih =>
    rw [sorted_arr]
    refine .arr fun v hv => ?_
    obtain ⟨u, hu, rfl⟩ := List.mem_map.mp hv
    exact ih u hu
  | obj _ ih =>
    rw [sorted_obj]
    refine .obj fun f hf => ?_
    obtain ⟨g, hg, rfl⟩ := List.mem_map.mp hf
    exact ih g (mem_sortFields.mp hg)

/-! ## Space -/

theorem skipSpace_cons (h : isSpace c = false) (t : Text) : skipSpace (c :: t) = c :: t := by
  rw [skipSpace, List.dropWhile_cons_of_neg (by simp [h])]

theorem skipSpace_newline (level : Nat) (h : isSpace c = false) (t : Text) :
    skipSpace (newline level ++ c :: t) = c :: t := by
  have hspaces : ∀ x ∈ newline level, isSpace x = true := by
    intro x hx
    rcases List.mem_cons.mp hx with rfl | hx
    · decide
    · rw [List.eq_of_mem_replicate hx]
      decide
  rw [skipSpace, List.dropWhile_append_of_pos hspaces]
  exact skipSpace_cons h t

/-! ## Writers -/

/-- What is written stands in front of what follows. -/
def Writer.Appends (w : Writer) : Prop := ∀ rest : Text, w rest = w [] ++ rest

/-- What is written begins with a character that satisfies `p`. -/
def Writer.Begins (w : Writer) (p : CodePoint → Prop) : Prop :=
  ∀ rest, ∃ c s, w rest = c :: s ∧ p c

theorem Writer.Appends.length (h : w.Appends) (rest : Text) :
    (w rest).length = (w []).length + rest.length := by
  rw [h rest, List.length_append]

theorem Writer.appends_text (t : Text) : Writer.Appends (t ++ ·) := fun rest => by simp

theorem Writer.Appends.prepend (h : w.Appends) (t : Text) : Writer.Appends fun rest => t ++ w rest := by
  intro rest
  change t ++ w rest = (t ++ w []) ++ rest
  rw [h rest, List.append_assoc]

theorem appends_separated (separator : Text) (h : ∀ w ∈ ws, w.Appends) :
    Writer.Appends (separated separator ws) := by
  induction ws with
  | nil => exact fun rest => rfl
  | cons w ws ih =>
    cases ws with
    | nil => exact h w List.mem_cons_self
    | cons v ws =>
      intro rest
      have hw := h w List.mem_cons_self
      have hrest := ih (fun x hx => h x (List.mem_cons_of_mem w hx)) rest
      simp only [separated] at hrest ⊢
      rw [hw, hrest, hw (separator ++ separated separator (v :: ws) [])]
      simp only [List.append_assoc]

theorem appends_block (level : Nat) (opening closing : CodePoint) (h : ∀ w ∈ ws, w.Appends) :
    Writer.Appends (block level opening closing ws) := by
  intro rest
  have hws := appends_separated (.char ',' :: newline (level + 1)) h
  unfold block
  split
  · rfl
  · rw [hws (newline level ++ closing :: rest), hws (newline level ++ [closing])]
    simp only [List.cons_append, List.append_assoc, List.nil_append]

theorem begins_separated {p : CodePoint → Prop} (h : w.Begins p) (separator : Text)
    (ws : List Writer) : Writer.Begins (separated separator (w :: ws)) p := by
  cases ws with
  | nil => exact h
  | cons v ws => exact fun rest => h _

/-- A field of an object. -/
def writeField (level : Nat) (f : Text × Json) : Writer := fun rest =>
  quote plainAscii f.1 ++ (": " ++ renderAt level f.2 rest)

theorem renderItems_eq (level : Nat) (items : List Json) :
    renderItems level items = items.map (renderAt level) := by
  induction items with
  | nil => rfl
  | cons v r ih => rw [renderItems, ih, List.map_cons]

theorem renderFields_eq (level : Nat) (fields : List (Text × Json)) :
    renderFields level fields = fields.map fun f => (f.1, renderAt level f.2) := by
  induction fields with
  | nil => rfl
  | cons f r ih => rw [renderFields, ih, List.map_cons]

theorem renderAt_arr (level : Nat) (items : List Json) : renderAt level (.arr items) =
    block level '[' ']' (items.map (renderAt (level + 1))) := by
  rw [renderAt, renderItems_eq]

theorem renderAt_obj (level : Nat) (fields : List (Text × Json)) : renderAt level (.obj fields) =
    block level '{' '}' ((sortFields fields).map (writeField (level + 1))) := by
  rw [renderAt, renderFields_eq, sortFields_map, List.map_map]
  rfl

theorem quote_append (s rest : Text) : quote plainAscii s ++ rest =
    .char '"' :: (s.flatMap (escapeChar plainAscii) ++ .char '"' :: rest) := by
  simp [quote, String.text]

theorem begins_writeField (level : Nat) (f : Text × Json) :
    Writer.Begins (writeField level f) (· = .char '"') :=
  fun _ => ⟨_, _, quote_append f.1 _, rfl⟩

mutual

theorem appends_renderAt (level : Nat) : ∀ v : Json, Writer.Appends (renderAt level v)
  | .null => Writer.appends_text _
  | .bool _ => Writer.appends_text _
  | .int _ => Writer.appends_text _
  | .float _ => Writer.appends_text _
  | .str _ => Writer.appends_text _
  | .arr items => by
    rw [renderAt_arr]
    refine appends_block level _ _ fun w hw => ?_
    obtain ⟨v, hv, rfl⟩ := List.mem_map.mp hw
    exact appends_renderAt_of_mem (level + 1) items v hv
  | .obj fields => by
    rw [renderAt_obj]
    refine appends_block level _ _ fun w hw => ?_
    obtain ⟨f, hf, rfl⟩ := List.mem_map.mp hw
    have hvalue := appends_renderAt_of_mem_fields (level + 1) fields f (mem_sortFields.mp hf)
    exact (hvalue.prepend ": ").prepend _

theorem appends_renderAt_of_mem (level : Nat) :
    ∀ items : List Json, ∀ v ∈ items, Writer.Appends (renderAt level v)
  | [] => by simp
  | v :: r => List.forall_mem_cons.mpr ⟨appends_renderAt level v, appends_renderAt_of_mem level r⟩

theorem appends_renderAt_of_mem_fields (level : Nat) :
    ∀ fields : List (Text × Json), ∀ f ∈ fields, Writer.Appends (renderAt level f.2)
  | [] => by simp
  | (_, v) :: r =>
    List.forall_mem_cons.mpr ⟨appends_renderAt level v, appends_renderAt_of_mem_fields level r⟩

end

theorem Text.exists_ofNat_eq_cons (n : Nat) :
    ∃ c s, Text.ofNat n = c :: s ∧ Text.isPlainDigit c = true := by
  obtain ⟨c, s, hs⟩ := List.exists_cons_of_ne_nil (Text.ofNat_ne_nil n)
  exact ⟨c, s, hs, Text.isPlainDigit_of_mem_ofNat (hs ▸ List.mem_cons_self)⟩

theorem ne_of_isPlainDigit {d : CodePoint} (h : Text.isPlainDigit c = true)
    (hd : Text.isPlainDigit d = false) : c ≠ d := by
  rintro rfl
  simp [h] at hd

theorem isSpace_of_isPlainDigit (h : Text.isPlainDigit c = true) : isSpace c = false := by
  have hspace : ∀ d : CodePoint, Text.isPlainDigit d = false → decide (c = d) = false :=
    fun d hd => decide_eq_false (ne_of_isPlainDigit h hd)
  rw [isSpace, hspace ' ' (by decide), hspace '\t' (by decide), hspace '\n' (by decide),
    hspace '\r' (by decide)]
  rfl

/-- A value begins neither with space nor with the end of an array. -/
theorem begins_renderAt (level : Nat) (h : FloatFree v) :
    Writer.Begins (renderAt level v) fun c => isSpace c = false ∧ c ≠ .char ']' := by
  intro rest
  cases h with
  | null => exact ⟨_, _, rfl, by decide⟩
  | bool b =>
    cases b with
    | true => exact ⟨_, _, rfl, by decide⟩
    | false => exact ⟨_, _, rfl, by decide⟩
  | int n =>
    have hdigit : ∀ k : Nat, ∃ c s, Text.ofNat k ++ rest = c :: s ∧ isSpace c = false ∧
        c ≠ .char ']' := by
      intro k
      obtain ⟨c, s, hs, hc⟩ := Text.exists_ofNat_eq_cons k
      refine ⟨c, s ++ rest, by rw [hs, List.cons_append], ?_⟩
      exact ⟨isSpace_of_isPlainDigit hc, ne_of_isPlainDigit hc (by decide)⟩
    cases n with
    | ofNat k => exact hdigit k
    | negSucc k => exact ⟨_, _, rfl, by decide⟩
  | str s => exact ⟨_, _, quote_append s rest, by decide⟩
  | arr =>
    rw [renderAt_arr, block]
    split
    · exact ⟨_, _, rfl, by decide⟩
    · exact ⟨_, _, rfl, by decide⟩
  | obj =>
    rw [renderAt_obj, block]
    split
    · exact ⟨_, _, rfl, by decide⟩
    · exact ⟨_, _, rfl, by decide⟩

/-! ## Values that are not nested -/

/-- Reads a number with its sign. -/
def signedNumber (t : Text) : Parsed Json :=
  match t with
  | .char '-' :: r => number true r
  | t => number false t

theorem value_of_head? (hq : t.head? ≠ some (.char '"')) (ho : t.head? ≠ some (.char '{'))
    (ha : t.head? ≠ some (.char '[')) (fuel room : Nat) : value (fuel + 1) room t =
      match word? t with
      | some found => .ok found
      | none => signedNumber t := by
  rw [value.eq_def]
  dsimp only
  split
  · exact absurd rfl hq
  · exact absurd rfl ho
  · exact absurd rfl ha
  · rfl

/-- No word is a number, with or without a sign. -/
theorem word?_of_isPlainDigit (h : Text.isPlainDigit c = true) (t : Text) :
    word? (c :: t) = none ∧ word? (.char '-' :: c :: t) = none := by
  have hne : ∀ d : CodePoint, Text.isPlainDigit d = false → d ≠ c :=
    fun d hd => (ne_of_isPlainDigit h hd).symm
  have hn := hne 'n' (by decide)
  have ht := hne 't' (by decide)
  have hf := hne 'f' (by decide)
  have hN := hne 'N' (by decide)
  have hI := hne 'I' (by decide)
  have hm := hne '-' (by decide)
  constructor
  · simp [word?, words, Text.after?, String.text, hn, ht, hf, hN, hI, hm]
  · simp [word?, words, Text.after?, String.text, hI]

theorem signedNumber_of_isPlainDigit (h : Text.isPlainDigit c = true) (t : Text) :
    signedNumber (c :: t) = number false (c :: t) := by
  unfold signedNumber
  split
  · rename_i heq
    exact absurd (List.cons.inj heq).1 (ne_of_isPlainDigit h (by decide))
  · rfl

theorem value_int {n : Int} (hn : Text.Readable n) (hr : EndsInteger rest)
    (hf : 2 * (Text.ofInt n ++ rest).length ≤ fuel) (room : Nat) :
    value fuel room (Text.ofInt n ++ rest) = .ok (.int n, rest) := by
  cases n with
  | ofNat k =>
    obtain ⟨c, s, hs, hc⟩ := Text.exists_ofNat_eq_cons k
    have hne : ∀ d : CodePoint, Text.isPlainDigit d = false → (c :: (s ++ rest)).head? ≠ some d :=
      fun d hd h => ne_of_isPlainDigit hc hd (Option.some.inj h)
    have hread := number_ofNat_append hn hr false
    rw [Text.ofInt, hs, List.cons_append] at hf ⊢
    rw [hs, List.cons_append] at hread
    cases fuel with
    | zero => simp at hf
    | succ fuel =>
      rw [value_of_head? (hne _ (by decide)) (hne _ (by decide)) (hne _ (by decide)),
        (word?_of_isPlainDigit hc _).1, signedNumber_of_isPlainDigit hc, hread]
      rfl
  | negSucc k =>
    obtain ⟨c, s, hs, hc⟩ := Text.exists_ofNat_eq_cons (k + 1)
    have hread := number_ofNat_append (n := k + 1) hn hr true
    rw [Text.ofInt, hs, List.cons_append, List.cons_append] at hf ⊢
    rw [hs, List.cons_append] at hread
    cases fuel with
    | zero => simp at hf
    | succ fuel =>
      rw [value_of_head? (by simp) (by simp) (by simp), (word?_of_isPlainDigit hc _).2,
        signedNumber, hread]
      rfl

theorem length_le_flatMap_escapeChar (s : Text) :
    s.length ≤ (s.flatMap (escapeChar plainAscii)).length := by
  have hpos : ∀ c, 1 ≤ (escapeChar plainAscii c).length := by
    intro c
    unfold escapeChar unicodeEscape
    split
    · simp
    · split
      · simp
      · split <;> simp [String.text]
  induction s with
  | nil => simp
  | cons c s ih =>
    have hc := hpos c
    rw [List.flatMap_cons, List.length_append, List.length_cons]
    omega

theorem value_str (hs : s.Joined) (hf : (quote plainAscii s ++ rest).length ≤ fuel) (room : Nat) :
    value fuel room (quote plainAscii s ++ rest) = .ok (.str s, rest) := by
  have hlen := length_le_flatMap_escapeChar s
  rw [quote_append] at hf ⊢
  simp only [List.length_cons, List.length_append] at hf
  cases fuel with
  | zero => omega
  | succ fuel =>
    rw [value, stringBody_written hs (by omega)]
    rfl

/-! ## Arrays and objects -/

/-- What a bracketed list holds after its opening bracket and the line break. -/
def blockBody (level : Nat) (closing : CodePoint) (ws : List Writer) : Writer := fun rest =>
  separated (.char ',' :: newline (level + 1)) ws (newline level ++ closing :: rest)

theorem block_eq (level : Nat) (opening closing : CodePoint) (hne : ws ≠ []) (rest : Text) :
    block level opening closing ws rest =
      opening :: (newline (level + 1) ++ blockBody level closing ws rest) := by
  rw [block, if_neg (by simpa using hne)]
  rfl

theorem blockBody_cons (level : Nat) (closing : CodePoint) (w u : Writer) (ws : List Writer)
    (rest : Text) : blockBody level closing (w :: u :: ws) rest =
      w (.char ',' :: (newline (level + 1) ++ blockBody level closing (u :: ws) rest)) := rfl

theorem begins_blockBody {p : CodePoint → Prop} (hw : w.Begins p) (level : Nat)
    (closing : CodePoint) (ws : List Writer) :
    Writer.Begins (blockBody level closing (w :: ws)) p :=
  fun _ => begins_separated hw _ ws _

/-- The value is read back from what is written for it, whatever follows. -/
def ReadBack (room : Nat) (v : Json) : Prop :=
  ∀ (level : Nat) {fuel : Nat} {rest : Text}, EndsInteger rest →
    2 * (renderAt level v rest).length ≤ fuel →
      value fuel room (renderAt level v rest) = .ok (v.sorted, rest)

theorem endsInteger_comma (t : Text) : EndsInteger (.char ',' :: t) := by
  intro c hc
  obtain rfl := Option.some.inj hc
  decide

theorem endsInteger_newline (level : Nat) (t : Text) : EndsInteger (newline level ++ t) := by
  intro c hc
  obtain rfl := Option.some.inj hc
  decide

theorem elements_last (h : value fuel room t = .ok (v, newline level ++ .char ']' :: rest)) :
    elements (fuel + 1) room t = .ok ([v], rest) := by
  simp only [elements, h, skipSpace_newline level (show isSpace ']' = false by decide)]

theorem elements_next {p : CodePoint → Prop} (hp : ∀ c, p c → isSpace c = false) (hw : w.Begins p)
    (h : value fuel room t = .ok (v, .char ',' :: (newline level ++ w rest))) :
    elements (fuel + 1) room t =
      (elements fuel room (w rest)).map fun (items, r) => (v :: items, r) := by
  obtain ⟨c, s, hs, hc⟩ := hw rest
  have hnext : skipSpace (newline level ++ w rest) = w rest := by
    rw [hs, skipSpace_newline level (hp c hc)]
  simp only [elements, h, skipSpace_cons (show isSpace ',' = false by decide), hnext]

/-- The items of an array are read back. -/
theorem elements_written {items : List Json} (hne : items ≠ []) (hfree : ∀ v ∈ items, FloatFree v)
    (hread : ∀ v ∈ items, ReadBack room v)
    (hf : 2 * (blockBody level ']' (items.map (renderAt (level + 1))) rest).length < fuel) :
    elements fuel room (blockBody level ']' (items.map (renderAt (level + 1))) rest) =
      .ok (items.map sorted, rest) := by
  induction items generalizing fuel with
  | nil => exact absurd rfl hne
  | cons v items ih =>
    obtain ⟨hvfree, hfree⟩ := List.forall_mem_cons.mp hfree
    obtain ⟨hvread, hread⟩ := List.forall_mem_cons.mp hread
    cases fuel with
    | zero => omega
    | succ fuel =>
      cases items with
      | nil =>
        have hvalue := hvread (level + 1) (endsInteger_newline level (.char ']' :: rest))
          (Nat.lt_succ_iff.mp hf)
        exact elements_last hvalue
      | cons u items =>
        simp only [List.map_cons, blockBody_cons] at hf ⊢
        have hvalue := hvread (level + 1) (endsInteger_comma _) (Nat.lt_succ_iff.mp hf)
        have hlength := (appends_renderAt (level + 1) v).length (.char ',' :: (newline (level + 1) ++
          blockBody level ']' ((u :: items).map (renderAt (level + 1))) rest))
        have hbegins := begins_blockBody (begins_renderAt (level + 1) (hfree u List.mem_cons_self))
          level ']' (items.map (renderAt (level + 1)))
        have hlen : 2 * (blockBody level ']' ((u :: items).map (renderAt (level + 1))) rest).length <
            fuel := by
          simp only [List.length_cons, List.length_append, List.map_cons] at hlength ⊢
          omega
        rw [elements_next (fun _ hc => hc.1) hbegins hvalue, ← List.map_cons,
          ih (List.cons_ne_nil u items) hfree hread hlen]
        rfl

theorem writeField_eq (level : Nat) (f : Text × Json) (rest : Text) : writeField level f rest =
    .char '"' :: (f.1.flatMap (escapeChar plainAscii) ++
      .char '"' :: .char ':' :: .char ' ' :: renderAt level f.2 rest) := by
  rw [writeField, quote_append]
  rfl

/-- What follows a field decides whether there is another one. -/
def membersAfter (fuel room : Nat) (fields : List (Text × Json)) (r : Text) :
    Parsed (List (Text × Json)) :=
  match skipSpace r with
  | .char ',' :: r => members fuel room fields (skipSpace r)
  | .char '}' :: r => .ok (fields, r)
  | _ => .error .malformed

theorem members_field {f : Text × Json} (hk : f.1.Joined) (hfree : FloatFree f.2)
    (hread : ReadBack room f.2) (hr : EndsInteger r)
    (hf : 2 * (writeField level f r).length ≤ fuel) (seen : List (Text × Json)) :
    members (fuel + 1) room seen (writeField level f r) =
      membersAfter fuel room (setField f.1 f.2.sorted seen) r := by
  have hkey := length_le_flatMap_escapeChar f.1
  rw [writeField_eq] at hf ⊢
  simp only [List.length_cons, List.length_append] at hf
  have hstring := stringBody_written hk (show f.1.length < fuel by omega)
    (.char ':' :: .char ' ' :: renderAt level f.2 r)
  have hvalue := hread level hr (show 2 * (renderAt level f.2 r).length ≤ fuel by omega)
  obtain ⟨c, s, hs, hc, -⟩ := begins_renderAt level hfree r
  have hspace : skipSpace (.char ' ' :: renderAt level f.2 r) = renderAt level f.2 r := by
    rw [hs, skipSpace, List.dropWhile_cons_of_pos (by decide)]
    exact skipSpace_cons hc s
  simp only [members, hstring, skipSpace_cons (show isSpace ':' = false by decide), hspace, hvalue]
  rfl

/-- The fields of an object are read back, after those that were read before. -/
theorem members_written {fields seen : List (Text × Json)} (hne : fields ≠ [])
    (hn : FieldNames (seen ++ fields)) (hfree : ∀ f ∈ fields, FloatFree f.2)
    (hread : ∀ f ∈ fields, ReadBack room f.2)
    (hf : 2 * (blockBody level '}' (fields.map (writeField (level + 1))) rest).length < fuel) :
    members fuel room seen (blockBody level '}' (fields.map (writeField (level + 1))) rest) =
      .ok (seen ++ fields.map fun f => (f.1, f.2.sorted), rest) := by
  induction fields generalizing fuel seen with
  | nil => exact absurd rfl hne
  | cons f fields ih =>
    obtain ⟨hffree, hfree⟩ := List.forall_mem_cons.mp hfree
    obtain ⟨hfread, hread⟩ := List.forall_mem_cons.mp hread
    have hjoined : f.1.Joined := hn.joined f (by simp)
    have hfresh : f.1 ∉ seen.map Prod.fst := by
      have hnodup := hn.nodup
      rw [List.map_append, List.nodup_append] at hnodup
      exact fun h => hnodup.2.2 _ h _ (by simp) rfl
    have hset := setField_of_notMem f.2.sorted hfresh
    cases fuel with
    | zero => omega
    | succ fuel =>
      cases fields with
      | nil =>
        have hfield := members_field hjoined hffree hfread
          (endsInteger_newline level (.char '}' :: rest)) (Nat.lt_succ_iff.mp hf) seen
        rw [membersAfter, skipSpace_newline level (show isSpace '}' = false by decide), hset] at hfield
        exact hfield
      | cons g fields =>
        simp only [List.map_cons, blockBody_cons] at hf ⊢
        have hfield := members_field hjoined hffree hfread (endsInteger_comma _)
          (Nat.lt_succ_iff.mp hf) seen
        have hlength := (appends_renderAt (level + 1) f.2).length (.char ',' :: (newline (level + 1) ++
          blockBody level '}' ((g :: fields).map (writeField (level + 1))) rest))
        have hlen : 2 * (blockBody level '}' ((g :: fields).map (writeField (level + 1))) rest).length <
            fuel := by
          simp only [writeField, List.length_cons, List.length_append, List.map_cons] at hf hlength ⊢
          omega
        have hnames : FieldNames ((seen ++ [(f.1, f.2.sorted)]) ++ g :: fields) :=
          hn.of_map_fst_eq (by simp)
        have hrest := ih (List.cons_ne_nil g fields) hnames hfree hread hlen
        obtain ⟨c, s, hs, rfl⟩ := begins_blockBody (begins_writeField (level + 1) g) level '}'
          (fields.map (writeField (level + 1))) rest
        have hspace : skipSpace (newline (level + 1) ++ blockBody level '}'
            ((g :: fields).map (writeField (level + 1))) rest) =
              blockBody level '}' ((g :: fields).map (writeField (level + 1))) rest := by
          rw [List.map_cons, hs, skipSpace_newline (level + 1) (show isSpace '"' = false by decide)]
        rw [hfield, membersAfter, skipSpace_cons (show isSpace ',' = false by decide)]
        change members fuel room _ (skipSpace (newline (level + 1) ++ blockBody level '}'
          ((g :: fields).map (writeField (level + 1))) rest)) = _
        rw [hspace, hset, hrest, List.append_assoc]
        rfl

/-! ## Documents -/

/-- A value that is written as one word, number or string. -/
theorem readBack_of_text (hv : ∀ level rest, renderAt level v rest = t ++ rest)
    (hs : v.sorted = v) (h : ∀ {fuel : Nat} {rest : Text}, EndsInteger rest →
      2 * (t ++ rest).length ≤ fuel → value fuel room (t ++ rest) = .ok (v, rest)) :
    ReadBack room v := by
  intro level fuel rest hr hf
  rw [hv] at hf ⊢
  rw [hs]
  exact h hr hf

theorem value_word (hw : word? (c :: t) = some (v, r)) (hq : c ≠ .char '"') (ho : c ≠ .char '{')
    (ha : c ≠ .char '[') (hf : 2 * (c :: t).length ≤ fuel) :
    value fuel room (c :: t) = .ok (v, r) := by
  cases fuel with
  | zero => simp at hf
  | succ fuel =>
    rw [value_of_head? (by simpa using hq) (by simpa using ho) (by simpa using ha), hw]

theorem value_array (hw : w.Begins fun c => isSpace c = false ∧ c ≠ .char ']') (level : Nat)
    (rest : Text) : value (fuel + 1) (room + 1) (.char '[' :: (newline level ++ w rest)) =
      (elements fuel room (w rest)).map fun (items, r) => (.arr items, r) := by
  obtain ⟨c, s, hs, hspace, hc⟩ := hw rest
  rw [hs]
  simp only [value, skipSpace_newline level hspace]
  split
  · rename_i heq
    exact absurd heq (Nat.succ_ne_zero room)
  · rename_i heq
    exact absurd (List.cons.inj heq).1 hc
  · rename_i heq _
    obtain rfl := Nat.succ.inj heq
    rfl

theorem value_object (hw : w.Begins (· = .char '"')) (level : Nat) (rest : Text) :
    value (fuel + 1) (room + 1) (.char '{' :: (newline level ++ w rest)) =
      (members fuel room [] (w rest)).map fun (fields, r) => (.obj fields, r) := by
  obtain ⟨c, s, hs, rfl⟩ := hw rest
  rw [hs]
  simp only [value, skipSpace_newline level (show isSpace '"' = false by decide)]
  rfl

theorem readBack_arr {items : List Json} (hfree : ∀ v ∈ items, FloatFree v)
    (hread : ∀ v ∈ items, ReadBack room v) : ReadBack (room + 1) (.arr items) := by
  intro level fuel rest hr hf
  rw [renderAt_arr] at hf ⊢
  rw [sorted_arr]
  cases items with
  | nil =>
    cases fuel with
    | zero => simp [block] at hf
    | succ fuel =>
      simp only [List.map_nil, block, List.isEmpty_nil, if_true, value,
        skipSpace_cons (show isSpace ']' = false by decide)]
  | cons u items =>
    rw [block_eq level '[' ']' (by simp)] at hf ⊢
    cases fuel with
    | zero => simp at hf
    | succ fuel =>
      have hbegins := begins_blockBody (begins_renderAt (level + 1) (hfree u List.mem_cons_self))
        level ']' (items.map (renderAt (level + 1)))
      have hlen : 2 * (blockBody level ']' ((u :: items).map (renderAt (level + 1))) rest).length <
          fuel := by
        simp only [List.length_cons, List.length_append] at hf
        omega
      have hitems := elements_written (List.cons_ne_nil u items) hfree hread hlen
      rw [List.map_cons] at hitems
      rw [List.map_cons, value_array hbegins (level + 1) rest, hitems]
      rfl

theorem readBack_obj {fields : List (Text × Json)} (hn : FieldNames fields)
    (hfree : ∀ f ∈ fields, FloatFree f.2) (hread : ∀ f ∈ fields, ReadBack room f.2) :
    ReadBack (room + 1) (.obj fields) := by
  intro level fuel rest hr hf
  rw [renderAt_obj] at hf ⊢
  rw [sorted_obj]
  -- from here on the fields are those of the document, in their order
  have hperm := perm_sortFields fields
  replace hn : FieldNames (sortFields fields) :=
    ⟨((hperm.map Prod.fst).nodup_iff).mpr hn.nodup, fun f hf => hn.joined f (hperm.mem_iff.mp hf)⟩
  replace hfree : ∀ f ∈ sortFields fields, FloatFree f.2 := fun f hf => hfree f (hperm.mem_iff.mp hf)
  replace hread : ∀ f ∈ sortFields fields, ReadBack room f.2 :=
    fun f hf => hread f (hperm.mem_iff.mp hf)
  generalize sortFields fields = written at hf hn hfree hread ⊢
  cases written with
  | nil =>
    cases fuel with
    | zero => simp [block] at hf
    | succ fuel =>
      simp only [List.map_nil, block, List.isEmpty_nil, if_true, value,
        skipSpace_cons (show isSpace '}' = false by decide)]
  | cons g written =>
    rw [block_eq level '{' '}' (by simp)] at hf ⊢
    cases fuel with
    | zero => simp at hf
    | succ fuel =>
      have hbegins := begins_blockBody (begins_writeField (level + 1) g) level '}'
        (written.map (writeField (level + 1)))
      have hlen : 2 * (blockBody level '}' ((g :: written).map (writeField (level + 1))) rest).length <
          fuel := by
        simp only [List.length_cons, List.length_append] at hf
        omega
      have hnames : FieldNames ([] ++ g :: written) := hn
      have hfields := members_written (List.cons_ne_nil g written) hnames hfree hread hlen
      rw [List.map_cons] at hfields
      rw [List.map_cons, value_object hbegins (level + 1) rest, hfields]
      rfl

/-- A value within the bounds of the reader is read back with its fields in order. -/
theorem readBack_of_fits (hv : Fits room v) (hfree : FloatFree v) : ReadBack room v := by
  induction hv with
  | null =>
    exact readBack_of_text (t := "null") (fun _ _ => rfl) rfl fun _ hf =>
      value_word rfl (by decide) (by decide) (by decide) hf
  | bool b =>
    cases b with
    | true =>
      exact readBack_of_text (t := "true") (fun _ _ => rfl) rfl fun _ hf =>
        value_word rfl (by decide) (by decide) (by decide) hf
    | false =>
      exact readBack_of_text (t := "false") (fun _ _ => rfl) rfl fun _ hf =>
        value_word rfl (by decide) (by decide) (by decide) hf
  | int hn =>
    refine readBack_of_text (fun _ _ => rfl) rfl fun hr hf => ?_
    exact value_int hn hr hf _
  | float x => cases hfree
  | str hs =>
    exact readBack_of_text (fun _ _ => rfl) rfl fun _ hf => value_str hs (by omega) _
  | arr _ ih =>
    cases hfree with
    | arr hfree => exact readBack_arr hfree fun v hv => ih v hv (hfree v hv)
  | obj hn _ ih =>
    cases hfree with
    | obj hfree => exact readBack_obj hn hfree fun f hf => ih f hf (hfree f hf)

/-- A document is read back, with its fields in order. -/
theorem parse_render {nesting : Nat} (hv : Fits (nesting + 1) v) (hfree : FloatFree v) :
    parse nesting (render v ++ "\n") = .ok v.sorted := by
  have hdocument : render v ++ "\n" = renderAt 0 v "\n" := (appends_renderAt 0 v "\n").symm
  obtain ⟨c, s, hs, hspace, -⟩ := begins_renderAt 0 hfree "\n"
  have hskip : skipSpace (renderAt 0 v "\n") = renderAt 0 v "\n" := by
    rw [hs, skipSpace_cons hspace]
  have hread : value (2 * (renderAt 0 v "\n").length + 2) (nesting + 1) (renderAt 0 v "\n") =
      .ok (v.sorted, "\n".text) :=
    readBack_of_fits hv hfree 0 (endsInteger_newline 0 []) (Nat.le_add_right _ 2)
  have hend : (skipSpace "\n").isEmpty = true := by decide
  rw [hdocument]
  simp only [parse, hskip, hread, hend, if_true]

end CSharpActions.Json
