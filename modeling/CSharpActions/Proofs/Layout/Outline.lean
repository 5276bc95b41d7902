import CSharpActions.Proofs.Layout.Blocks

/-!
# Outlines with labels

An outline is a forest of statements, labels and blocks, written with one line for each statement,
label, header and brace. A block whose lines begin with a label is the block of a switch: the lines
under a label are those of its section.
-/
namespace CSharpActions.Layout

open Document (isIndent)

inductive LineKind where
  | statement
  | header
  | label
deriving DecidableEq, Repr

/-- A line of the given kind, with as many opening as closing braces. -/
structure LineKind.Admits (kind : LineKind) (code : Text) : Prop extends IsBare code where
  not_closing : closesBlock code = false
  braces : code.count (.char '\x7b') = code.count (.char '\x7d')
  label_iff : isLabel code = true ↔ kind = .label

/-- A line of the given kind that leaves nothing open but what a header announces. -/
structure LineKind.Completes (kind : LineKind) (code : Text) : Prop extends kind.Admits code where
  brackets : code.count (.char '(') + code.count (.char '[') =
    code.count (.char ')') + code.count (.char ']')
  ends : kind = .statement → endsStatement code = true

instance (code : Text) : Decidable (IsBare code) :=
  decidable_of_iff (Text.trim code = code ∧ code ≠ [] ∧
      (CodePoint.char '"' ∉ code ∧ CodePoint.char '\'' ∉ code) ∧
      (Text.occursIn ['/', '/'] code = false ∧ Text.occursIn ['/', '*'] code = false) ∧
      code.head? ≠ some (.char '#'))
    ⟨fun h => ⟨h.1, h.2.1, h.2.2.1, h.2.2.2.1, h.2.2.2.2⟩,
      fun h => ⟨h.trim_eq, h.ne_nil, h.no_quotes, h.no_comments, h.head_ne⟩⟩

instance (kind : LineKind) (code : Text) : Decidable (kind.Admits code) :=
  decidable_of_iff (IsBare code ∧ closesBlock code = false ∧
      code.count (.char '\x7b') = code.count (.char '\x7d') ∧
      (isLabel code = true ↔ kind = .label))
    ⟨fun h => ⟨h.1, h.2.1, h.2.2.1, h.2.2.2⟩,
      fun h => ⟨h.toIsBare, h.not_closing, h.braces, h.label_iff⟩⟩

instance (kind : LineKind) (code : Text) : Decidable (kind.Completes code) :=
  decidable_of_iff (kind.Admits code ∧
      code.count (.char '(') + code.count (.char '[') =
        code.count (.char ')') + code.count (.char ']') ∧
      (kind = .statement → endsStatement code = true))
    ⟨fun h => ⟨h.1, h.2.1, h.2.2⟩, fun h => ⟨h.toAdmits, h.brackets, h.ends⟩⟩

/-- Statements, labels and blocks in a row, with what stands inside the blocks; `P` says what the
lines of each kind are. A block need not have a header. -/
inductive Outline (P : LineKind → Text → Prop) where
  | nil
  | statement (code : Text) (h : P .statement code) (rest : Outline P)
  | label (code : Text) (h : P .label code) (rest : Outline P)
  | block (header : Option (Subtype (P .header))) (body rest : Outline P)

/-- A block by the numbers of its lines: those of its two braces and of all lines directly inside,
the braces of inner blocks included. -/
structure Block where
  opening : Nat
  closing : Nat
  inside : List Nat
  /-- Whether a label stands above the block in the block around it. -/
  labelled : Bool
deriving DecidableEq, Repr

namespace Outline

variable {P : LineKind → Text → Prop}

/-- The lines inside of `level` blocks, where a pass puts them: under a label one unit deeper, but
for the closing braces. -/
def rows (level : Nat) : Bool → Outline P → List Row
  | _, nil => []
  | labelled, statement code _ rest => ⟨level + labelled.toNat, code⟩ :: rest.rows level labelled
  | _, label code _ rest => ⟨level, code⟩ :: rest.rows level true
  | labelled, block header body rest =>
    header.toList.map (fun h => ⟨level + labelled.toNat, h.1⟩) ++
      ⟨level + labelled.toNat, ['\x7b']⟩ ::
        (body.rows (level + 1) false ++ ⟨level, ['\x7d']⟩ :: rest.rows level labelled)

/-- How many lines there are. -/
def size : Outline P → Nat
  | nil => 0
  | statement _ _ rest => rest.size + 1
  | label _ _ rest => rest.size + 1
  | block header body rest => header.toList.length + 1 + body.size + 1 + rest.size

/-- The numbers of the lines that no inner block has around it, from `n` on. -/
def numbers (n : Nat) : Outline P → List Nat
  | nil => []
  | statement _ _ rest => n :: rest.numbers (n + 1)
  | label _ _ rest => n :: rest.numbers (n + 1)
  | block header body rest =>
    let opening := n + header.toList.length
    let closing := opening + 1 + body.size
    List.range' n header.toList.length ++ opening :: closing :: rest.numbers (closing + 1)

/-- All blocks, with the numbers of their lines from `n` on. -/
def blocks (n : Nat) : Bool → Outline P → List Block
  | _, nil => []
  | labelled, statement _ _ rest => rest.blocks (n + 1) labelled
  | _, label _ _ rest => rest.blocks (n + 1) true
  | labelled, block header body rest =>
    let opening := n + header.toList.length
    let closing := opening + 1 + body.size
    ⟨opening, closing, body.numbers (opening + 1), labelled⟩ ::
      (body.blocks (opening + 1) false ++ rest.blocks (closing + 1) labelled)

theorem length_rows (f : Outline P) (level : Nat) (labelled : Bool) :
    (f.rows level labelled).length = f.size := by
  induction f generalizing level labelled with
  | nil => rfl
  | statement code h rest ih => simp [rows, size, ih]
  | label code h rest ih => simp [rows, size, ih]
  | block header body rest ihBody ihRest =>
    simp only [rows, size, List.length_append, List.length_cons, List.length_map, ihBody, ihRest]
    omega

end Outline

/-! ## The indentation of a level -/

theorem length_level (unit : Text) (n : Nat) :
    (List.replicate n unit).flatten.length = n * unit.length := by
  simp

theorem isIndent_of_mem_level {unit : Text} {c : CodePoint} (hu : IsUnit c unit) (n : Nat) :
    ∀ x ∈ (List.replicate n unit).flatten, isIndent x = true := by
  obtain ⟨hc, m, rfl⟩ := hu
  rw [flatten_replicate_copies]
  intro x hx
  rwa [List.eq_of_mem_replicate hx]

/-! ## Rows by their numbers -/

theorem getElem?_of_drop_eq_cons {α : Type} {l t : List α} {n : Nat} {a : α}
    (h : l.drop n = a :: t) : l[n]? = some a ∧ l.drop (n + 1) = t := by
  refine ⟨?_, ?_⟩
  · rw [← List.head?_drop, h, List.head?_cons]
  · rw [← List.tail_drop, h, List.tail_cons]

theorem drop_add_length {α : Type} {l x y : List α} {n : Nat} (h : l.drop n = x ++ y) :
    l.drop (n + x.length) = y := by
  rw [← List.drop_drop, h, List.drop_left]

theorem getElem?_of_drop_eq_append {α : Type} {l x y : List α} {n k : Nat}
    (h : l.drop n = x ++ y) (hk : k ∈ List.range' n x.length) : ∃ a ∈ x, l[k]? = some a := by
  obtain ⟨hn, hlt⟩ := List.mem_range'_1.mp hk
  have hlt : k - n < x.length := by omega
  refine ⟨x[k - n], List.getElem_mem hlt, ?_⟩
  have hget : (l.drop n)[k - n]? = l[k]? := by
    rw [List.getElem?_drop, Nat.add_sub_cancel' hn]
  rw [← hget, h, List.getElem?_append_left hlt, List.getElem?_eq_getElem hlt]

section Numbers

variable {P : LineKind → Text → Prop} {all post : List Row} {n level : Nat} {labelled : Bool}

/-- How the rows of a block stand: the opening brace is one unit deeper than the closing one where
the block stands under a label, and whatever is directly inside is deeper than the closing one. -/
structure Block.Stands (b : Block) (all : List Row) (level : Nat) : Prop where
  opening : all[b.opening]? = some ⟨level + b.labelled.toNat, ['\x7b']⟩
  closing : all[b.closing]? = some ⟨level, ['\x7d']⟩
  inside : ∀ k ∈ b.inside, ∃ r, all[k]? = some r ∧ level < r.level

/-- The rows of a block are its header, the brace, the body and the other brace, in this order. -/
theorem Outline.drop_block {header : Option (Subtype (P .header))} {body rest : Outline P}
    (h : all.drop n = (Outline.block header body rest).rows level labelled ++ post) :
    all.drop n = header.toList.map (fun h => ⟨level + labelled.toNat, h.1⟩) ++
        ⟨level + labelled.toNat, ['\x7b']⟩ ::
          (body.rows (level + 1) false ++ (⟨level, ['\x7d']⟩ ::
            (rest.rows level labelled ++ post))) ∧
      all[n + header.toList.length]? = some ⟨level + labelled.toNat, ['\x7b']⟩ ∧
      all.drop (n + header.toList.length + 1) =
        body.rows (level + 1) false ++ (⟨level, ['\x7d']⟩ :: (rest.rows level labelled ++ post)) ∧
      all[n + header.toList.length + 1 + body.size]? = some ⟨level, ['\x7d']⟩ ∧
      all.drop (n + header.toList.length + 1 + body.size + 1) =
        rest.rows level labelled ++ post := by
  have hrows : all.drop n = header.toList.map (fun h => ⟨level + labelled.toNat, h.1⟩) ++
      ⟨level + labelled.toNat, ['\x7b']⟩ ::
        (body.rows (level + 1) false ++ (⟨level, ['\x7d']⟩ ::
          (rest.rows level labelled ++ post))) := by
    rw [h, Outline.rows]
    simp only [List.append_assoc, List.cons_append]
  have hopening := drop_add_length hrows
  rw [List.length_map] at hopening
  obtain ⟨hget, hbody⟩ := getElem?_of_drop_eq_cons hopening
  have hclosing := drop_add_length hbody
  rw [Outline.length_rows] at hclosing
  obtain ⟨hget', hrest⟩ := getElem?_of_drop_eq_cons hclosing
  exact ⟨hrows, hget, hbody, hget', hrest⟩

/-- The lines that no inner block has around it stand at the level of the outline or deeper. -/
theorem Outline.exists_of_mem_numbers (f : Outline P) {k : Nat}
    (h : all.drop n = f.rows level labelled ++ post) (hk : k ∈ f.numbers n) :
    ∃ r, all[k]? = some r ∧ level ≤ r.level := by
  induction f generalizing n labelled with
  | nil => simp [Outline.numbers] at hk
  | statement code hc rest ih =>
    obtain ⟨hget, hdrop⟩ := getElem?_of_drop_eq_cons h
    rcases List.mem_cons.mp hk with rfl | hk
    · exact ⟨_, hget, Nat.le_add_right _ _⟩
    · exact ih hdrop hk
  | label code hc rest ih =>
    obtain ⟨hget, hdrop⟩ := getElem?_of_drop_eq_cons h
    rcases List.mem_cons.mp hk with rfl | hk
    · exact ⟨_, hget, Nat.le_refl _⟩
    · exact ih hdrop hk
  | block header body rest _ ihRest =>
    obtain ⟨hrows, hopening, -, hclosing, hrest⟩ := Outline.drop_block h
    rw [Outline.numbers, List.mem_append, List.mem_cons, List.mem_cons] at hk
    rcases hk with hk | rfl | rfl | hk
    · obtain ⟨r, hr, hget⟩ := getElem?_of_drop_eq_append hrows (by simpa using hk)
      obtain ⟨x, -, rfl⟩ := List.mem_map.mp hr
      exact ⟨_, hget, Nat.le_add_right _ _⟩
    · exact ⟨_, hopening, Nat.le_add_right _ _⟩
    · exact ⟨_, hclosing, Nat.le_refl _⟩
    · exact ihRest hrest hk

/-- Every block of an outline stands at the level of its closing brace. -/
theorem Outline.exists_stands (f : Outline P) {b : Block}
    (h : all.drop n = f.rows level labelled ++ post) (hb : b ∈ f.blocks n labelled) :
    ∃ m, b.Stands all m := by
  induction f generalizing n level labelled post with
  | nil => simp [Outline.blocks] at hb
  | statement code hc rest ih => exact ih (getElem?_of_drop_eq_cons h).2 hb
  | label code hc rest ih => exact ih (getElem?_of_drop_eq_cons h).2 hb
  | block header body rest ihBody ihRest =>
    obtain ⟨-, hopening, hbody, hclosing, hrest⟩ := Outline.drop_block h
    rw [Outline.blocks, List.mem_cons, List.mem_append] at hb
    rcases hb with rfl | hb | hb
    · exact ⟨level, hopening, hclosing, fun k hk => body.exists_of_mem_numbers hbody hk⟩
    · exact ihBody hbody hb
    · exact ihRest hrest hb

end Numbers

end CSharpActions.Layout
