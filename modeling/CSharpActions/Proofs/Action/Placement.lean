import CSharpActions.Proofs.Action.Execution
import CSharpActions.Proofs.Edit.Inserted

/-!
# Where plans insert

Whatever the settings are, the edits of an offered plan are insertions at the beginnings of lines,
from the first to the last. They are accepted, and keep the text as it is around them.
-/
namespace CSharpActions

/-- The edits of a plan are insertions in the order of their places. -/
structure Plan.Placed (d : Document) (plan : Plan) : Prop where
  edits_eq : plan.edits d.text = Document.insertions (plan.fragments d.text)
  pairwise : ((plan.fragments d.text).map fun f => d.offsetAt ⟨f.1, 0⟩).Pairwise (· ≤ ·)

namespace Document

variable {d : Document} {p : Position} {s : Settings} {plan : MemberPlan}

theorem placed_member {c b : Nat} (hc : plan.constructorStart = ⟨c, 0⟩)
    (hb : plan.bodyStart = ⟨b + 1, 0⟩) (hle : c ≤ b) : (Plan.member plan).Placed d := by
  have hoff : d.offsetAt ⟨c, 0⟩ ≤ d.offsetAt ⟨(b + 1 : Nat), 0⟩ := offsetAt_line_mono d (by omega)
  refine ⟨Plan.edits_member_eq (b := b + 1) hc hb d.text, ?_⟩
  have hsub := Plan.fragments_member_sublist (b := b + 1) hc hb d.text
  exact List.Pairwise.sublist (hsub.map _) (by simpa using hoff)

theorem placed_of_mem_actionsAt {a : Action} (h : a ∈ d.actionsAt p s) :
    d = a.document ∧ a.plan.Placed d ∧ a.command = a.plan.command := by
  rcases List.mem_append.mp h with h | h
  · obtain ⟨selected, body, kind, hs, hb, rfl⟩ := mem_memberActions h
    obtain ⟨c, b, hstart, hbody, hle, -⟩ := exists_lines_memberPlan kind hs hb
    exact ⟨rfl, placed_member hstart hbody hle, rfl⟩
  · obtain ⟨plan, rfl, -⟩ := mem_constructorAction (Option.mem_toList.mp h)
    exact ⟨rfl, ⟨rfl, List.pairwise_singleton _ _⟩, rfl⟩

end Document

namespace Plan.Placed

variable {d : Document} {plan : Plan}

theorem newText_eq (h : plan.Placed d) :
    (plan.edits d.text).map Edit.newText = (plan.fragments d.text).map (·.2) := by
  rw [h.edits_eq, Document.insertions, List.map_map]
  rfl

/-- The edits of a plan are accepted. -/
theorem exists_applyEdits (h : plan.Placed d) : ∃ t, d.applyEdits (plan.edits d.text) = .ok t ∧
    Inserted ((plan.edits d.text).map Edit.newText) d.text t := by
  rw [h.newText_eq, h.edits_eq]
  exact Document.exists_inserted_applyEdits h.pairwise

end Plan.Placed

/-- An action whose edits are accepted is carried out in any memory. -/
theorem Action.execute_memory_of_placed {host : Host} {m : Memory}
    (hk : 1 ≤ host.settings.tabSize) {a : Action} (hc : a.command = a.plan.command)
    (h : a.plan.Placed a.document) :
    ∃ applied, (a.execute host (memorySink none) m).result = .ok applied := by
  by_cases he : a.plan.edits a.document.text = []
  · exact ⟨_, (execute_of_nil host hc he (memorySink none) m).1⟩
  · obtain ⟨text, ht, -⟩ := h.exists_applyEdits
    obtain ⟨applied, m', ms, hcommit, -⟩ := commit_memorySink (a := a.proposed) (m := m) hk he ht
      (Line.reads_read text)
    refine ⟨applied, ?_⟩
    rw [(execute_eq host hc (memorySink none) m).1, hcommit]

end CSharpActions
