import BinaryReport.Engine.Catalog
import BinaryReport.Proofs.Outcome

/-!
# Faults of a walk

A fault that raises something decides what its site comes to (`Fault.raises_over`). The faults of an
engine are the same at every step of a walk, so a walk that raises something does so at its first
step (`Engine.raises_disassemble`). An overflow of the address space is not raised: it ends the walk.
-/

namespace BinaryReport

open Outcome

namespace Fault

variable {α : Type}

/-- What the fault of a site raises, if it raises something. -/
def raised? : Option (Fault α) → Option Raised
  | some (.raise r) => some r
  | _ => none

theorem raises_over (fault? : Option (Fault α)) (a : α) :
    Raises (raised? fault?) (Fault.over fault? (.ok a)) := by
  cases fault? with
  | none => exact raises_ok a
  | some fault =>
    cases fault with
    | raise r => exact raises_error r
    | answer b => exact raises_ok b

end Fault

namespace Engine

variable {e : Engine}

theorem raises_instructionAt (e : Engine) (a : Address) :
    Raises (Fault.raised? e.faults.instructionAt?) (e.instructionAt a) :=
  Fault.raises_over _ _

theorem raises_commentAt (e : Engine) (kind : CommentKind) (a : Address) :
    Raises (Fault.raised? e.faults.commentAt?) (e.commentAt kind a) :=
  Fault.raises_over _ _

/-! ## Steps -/

/-- Whether something that adding to an address raised is raised by the walk, too. -/
def isRaisedByWalk (r : Raised) : Bool := r.kind? ≠ some .addressOverflow

/-- What a step of a walk raises at an address, if it raises something. -/
def walkRaised? (e : Engine) (cursor : Address) : Option Raised :=
  match e.instructionAt cursor with
  | .error r => some r
  | .ok none => none
  | .ok (some _) =>
    (Fault.raised? e.faults.commentAt?).or
      ((Fault.raised? e.faults.advance?).filter isRaisedByWalk)

/-- Adding the length of an instruction without a fault can only overflow. -/
theorem advance_exact_cases (e : Engine) (a : Address) (n : Int) :
    (∃ r, Fault.raised? e.faults.advance? = some r ∧ e.advance a (.exact n) = .error r) ∨
      (Fault.raised? e.faults.advance? = none ∧ ((∃ b, e.advance a (.exact n) = .ok b) ∨
        ∃ r, e.advance a (.exact n) = .error r ∧ r.kind? = some .addressOverflow)) := by
  unfold advance
  cases e.faults.advance? with
  | some fault =>
    cases fault with
    | raise r => exact Or.inl ⟨r, rfl, rfl⟩
    | answer b => exact Or.inr ⟨rfl, Or.inl ⟨b, rfl⟩⟩
  | none =>
    refine Or.inr ⟨rfl, ?_⟩
    unfold Fault.over AddressSpace.advance Displacement.toInt?
    dsimp only
    cases e.program.space.shift? a n with
    | some b => exact Or.inl ⟨b, rfl⟩
    | none => exact Or.inr ⟨_, rfl, rfl⟩

/-- A step raises what its questions raise. -/
theorem raises_walkStep (e : Engine) (cursor : Address) :
    Raises (e.walkRaised? cursor) (e.walkStep cursor) := by
  unfold walkStep walkRaised?
  rcases e.raises_instructionAt cursor with ⟨r, -, hinstruction⟩ | ⟨-, found?, hinstruction⟩
  · rw [hinstruction]
    exact raises_error r
  rw [hinstruction]
  cases found? with
  | none => exact raises_ok WalkStep.stop
  | some i =>
    dsimp only
    rcases e.raises_commentAt .endOfLine cursor with ⟨r, hraised, hcomment⟩ | ⟨hnone, c?, hcomment⟩
    · rw [hcomment, hraised]
      exact raises_error r
    rw [hcomment, hnone, Option.none_or]
    dsimp only
    rcases e.advance_exact_cases i.address i.length with
      ⟨r, hraised, hadvance⟩ | ⟨hnone, ⟨behind, hadvance⟩ | ⟨r, hadvance, hkind⟩⟩
    · rw [hraised, hadvance, Option.filter_some]
      dsimp only
      by_cases hkind : r.kind? = some .addressOverflow
      · have hended : isRaisedByWalk r = false := decide_eq_false fun h => h hkind
        rw [if_pos hkind, hended]
        exact raises_ok _
      · have hgoes : isRaisedByWalk r = true := decide_eq_true hkind
        rw [if_neg hkind, hgoes]
        exact raises_error r
    · rw [hnone, hadvance]
      exact raises_ok _
    · rw [hnone, hadvance]
      dsimp only
      rw [if_pos hkind]
      exact raises_ok _

/-- After a step that leads on no later step raises anything. -/
theorem walkRaised?_of_next {cursor behind : Address} {record : InstructionRecord}
    (h : e.walkStep cursor = .ok (.next record behind)) (a : Address) : e.walkRaised? a = none := by
  unfold walkStep at h
  rcases e.raises_instructionAt cursor with ⟨r, -, hinstruction⟩ | ⟨hquiet, found?, hinstruction⟩
  · rw [hinstruction] at h
    cases h
  rw [hinstruction] at h
  cases found? with
  | none => cases h
  | some i =>
    dsimp only at h
    rcases e.raises_commentAt .endOfLine cursor with ⟨r, -, hcomment⟩ | ⟨hnone, c?, hcomment⟩
    · rw [hcomment] at h
      cases h
    rw [hcomment] at h
    dsimp only at h
    have hadvance : Fault.raised? e.faults.advance? = none := by
      rcases e.advance_exact_cases i.address i.length with ⟨r, -, hadvance⟩ | ⟨hadvance, -⟩
      · rw [hadvance] at h
        dsimp only at h
        split at h
        · cases h
        · cases h
      · exact hadvance
    unfold walkRaised?
    rcases e.raises_instructionAt a with ⟨r, hraised, -⟩ | ⟨-, other?, hother⟩
    · rw [hquiet] at hraised
      cases hraised
    rw [hother, hnone, hadvance]
    cases other? with
    | none => rfl
    | some j => rfl

/-! ## Walks -/

theorem exists_walkFrom (h : ∀ a, e.walkRaised? a = none) (bound : Binary64) (fuel recorded : Nat)
    (cursor : Address) : ∃ records, e.walkFrom bound fuel recorded cursor = .ok records := by
  induction fuel generalizing recorded cursor with
  | zero => exact ⟨[], rfl⟩
  | succ fuel ih =>
    rw [walkFrom]
    by_cases hlt : Binary64.ofNat recorded < bound
    · rw [if_pos hlt]
      rcases e.raises_walkStep cursor with ⟨r, hraised, -⟩ | ⟨-, step, hstep⟩
      · rw [h cursor] at hraised
        cases hraised
      rw [hstep]
      cases step with
      | stop => exact ⟨[], rfl⟩
      | last record => exact ⟨[record], rfl⟩
      | next record behind =>
        obtain ⟨records, hrecords⟩ := ih (recorded + 1) behind
        dsimp only
        rw [hrecords]
        exact ⟨record :: records, rfl⟩
    · rw [if_neg hlt]
      exact ⟨[], rfl⟩

/-- What a disassembly within a bound raises, if it raises something. -/
def disassemblyRaised? (e : Engine) (start : Address) (bound : Binary64) : Option Raised :=
  if Binary64.ofNat 0 < bound then e.walkRaised? start else none

/-- A walk raises what its first step raises. -/
theorem raises_disassemble (e : Engine) (start : Address) (bound : Binary64) :
    Raises (e.disassemblyRaised? start bound) (e.disassemble start bound) := by
  unfold disassemble disassemblyRaised?
  rw [walkFrom]
  by_cases hlt : Binary64.ofNat 0 < bound
  · rw [if_pos hlt, if_pos hlt]
    rcases e.raises_walkStep start with ⟨r, hraised, hstep⟩ | ⟨hquiet, step, hstep⟩
    · rw [hstep, hraised]
      exact raises_error r
    rw [hstep, hquiet]
    cases step with
    | stop => exact raises_ok []
    | last record => exact raises_ok [record]
    | next record behind =>
      obtain ⟨records, hrecords⟩ := exists_walkFrom (walkRaised?_of_next hstep) bound
        e.program.instructions.length (0 + 1) behind
      dsimp only
      rw [hrecords]
      exact raises_ok (record :: records)
  · rw [if_neg hlt, if_neg hlt]
    exact raises_ok []

end Engine

end BinaryReport
