import CSharpActions.Project.ProjectReader
import CSharpActions.Proofs.Project.References

/-!
# Questions to a reader

A reader keeps the project that it finds when it first looks at the text, and nothing if there is
none. Whatever was asked before, its answers are those that the text alone determines; only a text
that is not handed over to be read makes a difference, since it fails the first question.
-/
namespace CSharpActions

open Xml (Element)

namespace ProjectReader

variable {parser : Xml.Parser} {text : Text} {r : ProjectReader}

/-- The root that is kept of a text. -/
def kept (parser : Xml.Parser) (text : Text) : Option Element :=
  (parser text).toOption.filter fun root => root.localName = "Project".text

/-- The reader is one of this text, and holds the project if it has looked for that. -/
structure Holds (parser : Xml.Parser) (text : Text) (r : ProjectReader) : Prop where
  text_eq : r.text = text
  root_eq : r.root = if r.parsed then kept parser text else none

theorem run_look (parser : Xml.Parser) (r : ProjectReader) : (look parser).run r =
    match parser r.text with
    | .error e => .error e { r with parsed := true }
    | .ok root =>
      .ok () { r with
        parsed := true
        root := if root.localName = "Project" then some root else r.root } := by
  rw [look]
  cases hp : parser r.text with
  | error e =>
    simp only [parse, EStateM.run_bind, EStateM.run_modify, EStateM.run_get, hp]
    rfl
  | ok root =>
    by_cases he : root.localName = "Project".text
    · simp [parse, hp, he]
    · simp [parse, hp, he]

theorem run_tryCatch {α : Type} (x : Reading α) (handle : Xml.Failure → Reading α)
    (r : ProjectReader) : (tryCatch x handle).run r =
      match x.run r with
      | .ok a r' => .ok a r'
      | .error e r' => (handle e).run r' := by
  show EStateM.tryCatch x handle r = _
  rw [EStateM.tryCatch, EStateM.run]
  cases x r <;> rfl

/-- The first look at a text. -/
theorem run_project_new (parser : Xml.Parser) (text : Text) : (project parser).run { text } =
    match parser text with
    | .error .malformed => .ok none { text, parsed := true }
    | .error .unencodable => .error .unencodable { text, parsed := true }
    | .ok _ => .ok (kept parser text) { text, root := kept parser text, parsed := true } := by
  have hrun : (project parser).run { text } =
      match (look parser).run { text } with
      | .ok _ r => .ok r.root r
      | .error .malformed r => .ok none r
      | .error .unencodable r => .error .unencodable r := by
    rw [project, EStateM.run_bind, EStateM.run_get]
    dsimp only
    rw [if_neg Bool.false_ne_true, run_tryCatch, EStateM.run_bind]
    cases (look parser).run { text } with
    | ok _ r => rfl
    | error e r => cases e <;> rfl
  rw [hrun, run_look]
  cases hp : parser text with
  | error e => cases e <;> rfl
  | ok root =>
    have hkept : kept parser text = if root.localName = "Project" then some root else none := by
      rw [kept, hp]
      by_cases he : root.localName = "Project".text <;> simp [Except.toOption, he]
    simp only [hkept]

/-- A reader that has looked at its text, or one whose text can be handed over, fails at nothing. -/
theorem run_project (h : Holds parser text r)
    (hr : r.parsed = true ∨ parser text ≠ .error .unencodable) :
    ∃ r', (project parser).run r = .ok (kept parser text) r' ∧ r'.parsed = true ∧
      Holds parser text r' := by
  obtain ⟨t, root, parsed⟩ := r
  obtain ⟨rfl, hroot⟩ := h
  cases parsed with
  | true =>
    obtain rfl : root = kept parser t := hroot
    exact ⟨_, rfl, rfl, rfl, rfl⟩
  | false =>
    obtain rfl : root = none := hroot
    have hp : parser t ≠ .error .unencodable := hr.resolve_left (by simp)
    rw [run_project_new]
    cases hparse : parser t with
    | error e =>
      cases e with
      | malformed =>
        have hnone : kept parser t = none := by rw [kept, hparse]; rfl
        rw [hnone]
        exact ⟨_, rfl, rfl, rfl, hnone.symm⟩
      | unencodable => exact absurd hparse hp
    | ok root => exact ⟨_, rfl, rfl, rfl, rfl⟩

/-- What a text declares by the root that is kept of it. -/
def declared (parser : Xml.Parser) (text : Text) : ProjectFile :=
  ((kept parser text).map ProjectFile.ofProject).getD {}

theorem declared_of_ok {root : Element} (h : parser text = .ok root) :
    declared parser text = ProjectFile.ofRoot root := by
  rw [declared, kept, h, ProjectFile.ofRoot]
  by_cases he : root.localName = "Project".text <;> simp [Except.toOption, Option.filter, he]

theorem declared_of_error {e : Xml.Failure} (h : parser text = .error e) :
    declared parser text = {} := by
  rw [declared, kept, h]
  rfl

theorem run_answer (h : Holds parser text r)
    (hr : r.parsed = true ∨ parser text ≠ .error .unencodable) (q : Query) :
    ∃ r', (answer parser q).run r = .ok (answerOf (declared parser text) q) r' ∧
      r'.parsed = true ∧ Holds parser text r' := by
  obtain ⟨r', hrun, h'⟩ := run_project h hr
  refine ⟨r', ?_, h'⟩
  rw [answer, EStateM.run_bind, hrun, declared]
  cases kept parser text with
  | none => rfl
  | some root => rfl

/-- The answers do not depend on what was asked before. -/
theorem run_answers (h : Holds parser text r)
    (hr : r.parsed = true ∨ parser text ≠ .error .unencodable) (qs : List Query) :
    ∃ r', (answers parser qs).run r = .ok (qs.map (answerOf (declared parser text))) r' := by
  induction qs generalizing r with
  | nil => exact ⟨r, rfl⟩
  | cons q qs ih =>
    obtain ⟨r₁, hr₁, hparsed, h₁⟩ := run_answer h hr q
    obtain ⟨r₂, hr₂⟩ := ih h₁ (Or.inl hparsed)
    refine ⟨r₂, ?_⟩
    rw [answers, EStateM.run_bind, hr₁]
    dsimp only
    rw [EStateM.run_bind, hr₂]
    rfl

/-- A new reader answers all questions by the declarations of a file, in whatever order and however
often they are asked. -/
structure AnswersBy (parser : Xml.Parser) (text : Text) (file : ProjectFile) : Prop where
  first : ∀ q, ∃ r, (answer parser q).run { text } = .ok (answerOf file q) r
  sequence : ∀ qs, ∃ r, (answers parser qs).run { text } = .ok (qs.map (answerOf file)) r

theorem answersBy_declared (h : parser text ≠ .error .unencodable) :
    AnswersBy parser text (declared parser text) := by
  have hnew : Holds parser text { text } := ⟨rfl, rfl⟩
  refine ⟨fun q => ?_, run_answers hnew (Or.inr h)⟩
  obtain ⟨r, hr, -⟩ := run_answer hnew (Or.inr h) q
  exact ⟨r, hr⟩

/-- The first question fails, and all later ones are answered as if the file were empty. -/
structure FailsFirst (parser : Xml.Parser) (text : Text) (e : Xml.Failure) : Prop where
  exists_failure : ∀ q, ∃ r, (answer parser q).run { text } = .error e r ∧
    ∀ qs, ∃ r', (answers parser qs).run r = .ok (qs.map (answerOf {})) r'

theorem failsFirst_of_unencodable (h : parser text = .error .unencodable) :
    FailsFirst parser text .unencodable := by
  refine ⟨fun q => ⟨{ text, parsed := true }, ?_, fun qs => ?_⟩⟩
  · rw [answer, EStateM.run_bind, run_project_new, h]
  · have hkept : kept parser text = none := by rw [kept, h]; rfl
    have hr : Holds parser text { text, parsed := true } := ⟨rfl, hkept.symm⟩
    rw [← declared_of_error h]
    exact run_answers hr (Or.inl rfl) qs

end ProjectReader

open ProjectFile ProjectReader

/-- What a reader answers depends only on the elements that count, it lists the references in the
order of the document with their versions, and finds the first root namespace. Whatever it is asked,
and however often, it fails at nothing and answers what a new reader would, unless the text cannot
be handed over to the parser: then the first question fails, and no other. -/
theorem reader_depends_on_relevant (parser : Xml.Parser) :
    (∀ root root' : Element, Padded root root' → ofRoot root' = ofRoot root) ∧
    (∀ root : Element,
      InOrder "PackageReference" root
        (fun e r => e.attribute? "Include" = some r.name ∧ HasVersion e r.version)
        (ofRoot root).packages ∧
      InOrder "ProjectReference" root (fun e name => e.attribute? "Include" = some name)
        (ofRoot root).projects ∧
      HasRootNamespace root (ofRoot root).rootNamespace) ∧
    (∀ text : Text,
      (∀ root, parser text = .ok root → AnswersBy parser text (ofRoot root)) ∧
      (parser text = .error .malformed → AnswersBy parser text {}) ∧
      (parser text = .error .unencodable → FailsFirst parser text .unencodable)) ∧
    ∀ text : Text, Xml.read text = .error .unencodable ↔ ¬ Text.Utf8.Encodable text := by
  refine ⟨fun _ _ h => h.ofRoot_eq,
    fun root => ⟨inOrder_packages root, inOrder_projects root, hasRootNamespace_ofRoot root⟩,
    fun text => ⟨fun root h => ?_, fun h => ?_, failsFirst_of_unencodable⟩,
    fun _ => Xml.read_eq_unencodable_iff⟩
  · rw [← declared_of_ok h]
    exact answersBy_declared (by simp [h])
  · rw [← declared_of_error h]
    exact answersBy_declared (by simp [h])

/-- A project without namespaces that refers to a package by a nested version. -/
def plainProject : Element :=
  .mk ⟨[], "Project"⟩ [] [] [
    .mk ⟨[], "ItemGroup"⟩ [] [] [
      .mk ⟨[], "PackageReference"⟩ [(⟨[], "Include"⟩, "A")] [] [
        .mk ⟨[], "Version"⟩ [] "1" []]]]

/-- The same project in several namespaces and with further elements at all levels. -/
def paddedProject : Element :=
  .mk ⟨"m", "Project"⟩ [] [] [
    .mk ⟨[], "Import"⟩ [] [] [],
    .mk ⟨"m", "ItemGroup"⟩ [] "\n" [
      .mk ⟨"n", "PackageReference"⟩ [(⟨[], "Include"⟩, "A")] [] [
        .mk ⟨"m", "Assets"⟩ [] "all" [],
        .mk ⟨[], "Version"⟩ [] "1" []],
      .mk ⟨[], "RootNamespace"⟩ [] "B" []]]

/-- What the two projects declare, and what a reader answers that is asked twice about a text that
is not well formed. -/
theorem reader_depends_on_relevant_of_padded :
    Padded plainProject paddedProject ∧ ofRoot paddedProject = ofRoot plainProject ∧
      (ofRoot plainProject).packages = [⟨"A", some "1".text⟩] ∧
      ∃ r, (answers Xml.read [.rootNamespace, .packages, .rootNamespace]).run
        { text := "<Project>" } = .ok [.rootNamespace none, .packages [], .rootNamespace none] r := by
  have hversion : Padded (.mk ⟨[], "Version"⟩ [] "1" []) (.mk ⟨[], "Version"⟩ [] "1" []) :=
    .mk rfl (fun _ => rfl) .nil
  have h : Padded plainProject paddedProject := by
    refine .mk rfl (by decide) (.insert (by decide) (.keep (.mk rfl (by decide) ?_) .nil))
    refine .keep (.mk rfl (by decide) ?_) (.insert (by decide) .nil)
    exact .insert (by decide) (.keep hversion .nil)
  obtain ⟨hpadded, -, hanswers, -⟩ := reader_depends_on_relevant Xml.read
  have hmalformed : Xml.read "<Project>" = .error .malformed := by
    rw [Xml.read]
    have hparse : Xml.parse? "<Project>" = none := by decide +kernel
    have hdecoded : Xml.decoded? "<Project>" ((Text.Utf8.encode? "<Project>").getD []) =
        some "<Project>".text := by decide
    obtain ⟨bytes, hb⟩ := (by decide : Text.Utf8.Encodable "<Project>").exists_bytes
    rw [hb, Option.getD_some] at hdecoded
    rw [hb]
    dsimp only
    rw [hdecoded, Option.bind_some, hparse]
  refine ⟨h, hpadded _ _ h, by decide +kernel, ?_⟩
  exact ((hanswers "<Project>").2.1 hmalformed).sequence [.rootNamespace, .packages, .rootNamespace]

/-- The text is half of a surrogate pair: the first question fails, and the same question is then
answered. -/
theorem reader_fails_first :
    ∃ r r', (answer Xml.read .packages).run { text := [.surrogate 0] } = .error .unencodable r ∧
      (answers Xml.read [.packages]).run r = .ok [.packages []] r' := by
  have hrefused : Xml.read [.surrogate 0] = .error .unencodable :=
    Xml.read_eq_unencodable_iff.mpr (by decide)
  obtain ⟨r, hr, hlater⟩ := (failsFirst_of_unencodable hrefused).exists_failure .packages
  obtain ⟨r', hr'⟩ := hlater [.packages]
  exact ⟨r, r', hr, hr'⟩

end CSharpActions
