import CSharpActions.Json.Printer
import CSharpActions.Proofs.Text.Fragment
import CSharpActions.Proofs.Text.Plain

/-!
# JSON documents

A written document is plain text, whatever its strings hold.
-/
namespace CSharpActions

open Text (Plain plain_append plain_cons plain_nil)

/-! ## Numbers -/

namespace Binary64

theorem plain_layout {digits : Text} (h : Plain digits) (point : Int) :
    Plain (layout digits point) := by
  have hzeros : ∀ n, Plain (Text.copies n '0') := fun n => Text.plain_copies n (by decide)
  have htake : ∀ n, Plain (digits.take n) := fun n => h.of_subset (List.take_subset n digits)
  have hdrop : ∀ n, Plain (digits.drop n) := fun n => h.of_subset (List.drop_subset n digits)
  unfold layout
  split
  · split
    · exact plain_append.mpr ⟨plain_append.mpr ⟨by decide, hzeros _⟩, h⟩
    · simp only [plain_append]
      refine ⟨⟨⟨htake _, hzeros _⟩, by decide⟩, ?_⟩
      split
      · decide
      · exact hdrop _
  · simp only [plain_append]
    refine ⟨⟨⟨⟨htake 1, ?_⟩, by decide⟩, ?_⟩, ?_⟩
    · split
      · exact plain_cons.mpr ⟨by decide, hdrop 1⟩
      · exact plain_nil
    · split <;> decide
    · split
      · exact plain_cons.mpr ⟨by decide, Text.plain_ofNat _⟩
      · exact Text.plain_ofNat _

theorem plain_render {infinity nan : Text} (hi : Plain infinity) (hn : Plain nan) (x : Binary64) :
    Plain (x.render infinity nan) := by
  have hsign : ∀ negative : Bool, Plain ((if negative then "-" else "") : String) := by decide
  cases x with
  | nan => exact hn
  | infinite negative => exact plain_append.mpr ⟨hsign negative, hi⟩
  | finite negative m q =>
    refine plain_append.mpr ⟨hsign negative, ?_⟩
    split
    · decide
    · refine plain_layout ?_ _
      rw [Text.dropEndWhile_eq_rdropWhile]
      exact (Text.plain_ofNat _).of_subset (List.rdropWhile_prefix _ _).subset

end Binary64

namespace Json

/-! ## Strings -/

theorem isPlain_of_shortEscape? {c e : CodePoint} (h : shortEscape? c = some e) : e.IsPlain := by
  unfold shortEscape? at h
  split at h <;> first | (obtain rfl := Option.some.inj h; decide) | simp at h

theorem plain_unicodeEscape (n : Nat) : Plain (unicodeEscape n) := by
  have hmark : Plain ("\\u" : Text) := by decide
  unfold unicodeEscape
  split
  · exact plain_append.mpr ⟨hmark, Text.plain_hex 4 _⟩
  · simp only [plain_append]
    exact ⟨⟨⟨hmark, Text.plain_hex 4 _⟩, hmark⟩, Text.plain_hex 4 _⟩

theorem plain_quote (s : Text) : Plain (quote plainAscii s) := by
  have hescape : ∀ c, Plain (escapeChar plainAscii c) := by
    intro c
    unfold escapeChar
    split
    · rename_i e he
      exact plain_cons.mpr ⟨by decide, plain_cons.mpr ⟨isPlain_of_shortEscape? he, plain_nil⟩⟩
    · split
      · rename_i hp
        rw [plainAscii, Bool.and_eq_true, decide_eq_true_iff, decide_eq_true_iff] at hp
        exact plain_cons.mpr ⟨Or.inr hp, plain_nil⟩
      · exact plain_unicodeEscape _
  have hmark : Plain ("\"" : Text) := by decide
  refine plain_append.mpr ⟨plain_append.mpr ⟨hmark, ?_⟩, hmark⟩
  intro c hc
  obtain ⟨x, -, hx⟩ := List.mem_flatMap.mp hc
  exact hescape x c hx

/-! ## Values -/

/-- What is written in front of plain text makes plain text. -/
def Writer.IsPlain (w : Writer) : Prop := ∀ rest, Plain rest → Plain (w rest)

theorem Writer.isPlain_append {t : Text} (h : Plain t) : Writer.IsPlain (t ++ ·) :=
  fun _ hr => plain_append.mpr ⟨h, hr⟩

theorem isPlain_separated {separator : Text} (h : Plain separator) {ws : List Writer}
    (hw : ∀ w ∈ ws, w.IsPlain) : Writer.IsPlain (separated separator ws) := by
  induction ws with
  | nil => exact fun _ hr => hr
  | cons w ws ih =>
    cases ws with
    | nil => exact hw w List.mem_cons_self
    | cons v ws =>
      intro rest hr
      have hrest := ih (fun x hx => hw x (List.mem_cons_of_mem w hx)) rest hr
      exact hw w List.mem_cons_self _ (plain_append.mpr ⟨h, hrest⟩)

theorem plain_newline (level : Nat) : Plain (newline level) :=
  plain_cons.mpr ⟨by decide, Text.plain_copies _ (by decide)⟩

theorem isPlain_block {level : Nat} {opening closing : CodePoint} (ho : opening.IsPlain)
    (hc : closing.IsPlain) {items : List Writer} (hw : ∀ w ∈ items, w.IsPlain) :
    Writer.IsPlain (block level opening closing items) := by
  intro rest hr
  have hend : Plain (closing :: rest) := plain_cons.mpr ⟨hc, hr⟩
  unfold block
  split
  · exact plain_cons.mpr ⟨ho, hend⟩
  · have hsep : Plain (.char ',' :: newline (level + 1)) :=
      plain_cons.mpr ⟨by decide, plain_newline _⟩
    refine plain_cons.mpr ⟨ho, plain_append.mpr ⟨plain_newline _, ?_⟩⟩
    exact isPlain_separated hsep hw _ (plain_append.mpr ⟨plain_newline _, hend⟩)

mutual

theorem isPlain_renderAt (level : Nat) : ∀ v : Json, Writer.IsPlain (renderAt level v)
  | .null => Writer.isPlain_append (by decide)
  | .bool b => Writer.isPlain_append (by cases b <;> decide)
  | .int n => Writer.isPlain_append (Text.plain_ofInt n)
  | .float x => Writer.isPlain_append (Binary64.plain_render (by decide) (by decide) x)
  | .str s => Writer.isPlain_append (plain_quote s)
  | .arr items => by
    rw [renderAt]
    exact isPlain_block (by decide) (by decide) (isPlain_of_mem_renderItems (level + 1) items)
  | .obj fields => by
    rw [renderAt]
    refine isPlain_block (by decide) (by decide) ?_
    intro w hw
    obtain ⟨f, hf, rfl⟩ := List.mem_map.mp hw
    have hfield := isPlain_of_mem_renderFields (level + 1) fields f (List.mem_mergeSort.mp hf)
    intro rest hr
    refine plain_append.mpr ⟨plain_quote f.1, plain_append.mpr ⟨by decide, hfield rest hr⟩⟩

theorem isPlain_of_mem_renderItems (level : Nat) :
    ∀ vs : List Json, ∀ w ∈ renderItems level vs, Writer.IsPlain w
  | [] => by simp [renderItems]
  | v :: r => by
    rw [renderItems]
    exact List.forall_mem_cons.mpr
      ⟨isPlain_renderAt level v, isPlain_of_mem_renderItems level r⟩

theorem isPlain_of_mem_renderFields (level : Nat) :
    ∀ fs : List (Text × Json), ∀ f ∈ renderFields level fs, Writer.IsPlain f.2
  | [] => by simp [renderFields]
  | (k, v) :: r => by
    rw [renderFields]
    exact List.forall_mem_cons.mpr
      ⟨isPlain_renderAt level v, isPlain_of_mem_renderFields level r⟩

end

/-- A document is plain text. -/
theorem plain_render (v : Json) : Plain (render v) := isPlain_renderAt 0 v [] plain_nil

end Json

end CSharpActions
