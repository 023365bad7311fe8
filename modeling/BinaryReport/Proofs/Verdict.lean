import BinaryReport.Verdict

/-!
# Joined verdicts

A joined verdict accepts exactly if both sides do, and its issues are those of the left side followed
by those of the right side.
-/

namespace BinaryReport.Verdict

variable {α β : Type}

/-! ## Acceptance -/

theorem map_eq_accepted {f : α → β} {x : Verdict α} {b : β} (h : f <$> x = .accepted b) :
    ∃ a, x = .accepted a ∧ f a = b := by
  cases x with
  | accepted a => exact ⟨a, rfl, Verdict.accepted.inj h⟩
  | refused first others => cases h

theorem seq_eq_accepted {f : Verdict (α → β)} {x : Verdict α} {b : β}
    (h : f <*> x = .accepted b) : ∃ g a, f = .accepted g ∧ x = .accepted a ∧ g a = b := by
  cases f with
  | accepted g =>
    cases x with
    | accepted a => exact ⟨g, a, rfl, rfl, Verdict.accepted.inj h⟩
    | refused first others => cases h
  | refused first others =>
    cases x with
    | accepted a => cases h
    | refused first' others' => cases h

theorem under_eq_accepted {step : PathStep} {x : Verdict α} {a : α}
    (h : x.under step = .accepted a) : x = .accepted a := by
  cases x with
  | accepted b => exact h
  | refused first others => cases h

theorem ofIssues_eq_accepted {a b : α} {is : List Issue} (h : ofIssues a is = .accepted b) :
    a = b ∧ is = [] := by
  cases is with
  | nil => exact ⟨Verdict.accepted.inj h, rfl⟩
  | cons first others => cases h

/-! ## Issues -/

theorem issues_map (f : α → β) (x : Verdict α) : (f <$> x).issues = x.issues := by
  cases x with
  | accepted a => rfl
  | refused first others => rfl

theorem issues_seq (f : Verdict (α → β)) (x : Verdict α) :
    (f <*> x).issues = f.issues ++ x.issues := by
  cases f with
  | accepted g =>
    cases x with
    | accepted a => rfl
    | refused first others => rfl
  | refused first others =>
    cases x with
    | accepted a => exact (List.append_nil (first :: others)).symm
    | refused first' others' => rfl

theorem issues_under (step : PathStep) (x : Verdict α) :
    (x.under step).issues = x.issues.map (Issue.under step) := by
  cases x with
  | accepted a => rfl
  | refused first others => rfl

theorem issues_ofIssues (a : α) (is : List Issue) : (ofIssues a is).issues = is := by
  cases is with
  | nil => rfl
  | cons first others => rfl

end BinaryReport.Verdict
