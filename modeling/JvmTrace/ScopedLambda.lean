import JvmTrace.Headcounts
import JvmTrace.Runs

/-!
ScopedLambda of src/ts/common/defer.h, for functions that can still be called when they
have been moved from: lambdas that capture by reference, as DEFER makes them, and
function pointers, which alone can be assigned. The default moves copy active_ and leave
the source active; an assignment drops the function it overwrites without a call. Any
number of variables and of functions; beside them is counted what was made, run, doubled
by a move, overwritten, armed again and disarmed.
-/
namespace JvmTrace.ScopedLambda

open Runs Headcounts

/-- A variable holds a function and active_, from its constructor to its destructor. -/
structure State (H F : Type*) where
  lambda : H → Option (F × Bool)
  runs : F → ℕ
  made : F → ℕ
  doubled : F → ℕ
  overwritten : F → ℕ
  rearmed : F → ℕ
  disarmed : F → ℕ

inductive Op (H F : Type*)
  | make (v : H) (fn : F)
  | move (v from_ : H)
  | assign (v from_ : H)
  | run_and_expire (v : H)
  | activate (v : H)
  | deactivate (v : H)
  | destroy (v : H)

variable {H F : Type*}

def init : State H F where
  lambda := fun _ => none
  runs := fun _ => 0
  made := fun _ => 0
  doubled := fun _ => 0
  overwritten := fun _ => 0
  rearmed := fun _ => 0
  disarmed := fun _ => 0

variable [DecidableEq H] [DecidableEq F]

/-- One more for the function, when the condition holds. -/
def bump (count : F → ℕ) (fn : F) (b : Bool) : F → ℕ :=
  if b then Function.update count fn (count fn + 1) else count

def step (s : State H F) (op : Op H F) : Option (State H F) :=
  match op with
  | .make v fn =>
    match s.lambda v with
    | none =>
      some { s with
        lambda := Function.update s.lambda v (some (fn, true))
        made := bump s.made fn true }
    | some _ => none
  | .move v from_ =>
    match s.lambda v, s.lambda from_ with
    | none, some (fn, active_) =>
      some { s with
        lambda := Function.update s.lambda v (some (fn, active_))
        doubled := bump s.doubled fn active_ }
    | _, _ => none
  | .assign v from_ =>
    match s.lambda v, s.lambda from_ with
    | some (old, armed), some (fn, active_) =>
      some { s with
        lambda := Function.update s.lambda v (some (fn, active_))
        overwritten := bump s.overwritten old armed
        doubled := bump s.doubled fn active_ }
    | _, _ => none
  | .run_and_expire v =>
    match s.lambda v with
    | some (fn, active_) =>
      some { s with
        lambda := Function.update s.lambda v (some (fn, false))
        runs := bump s.runs fn active_ }
    | none => none
  | .activate v =>
    match s.lambda v with
    | some (fn, active_) =>
      some { s with
        lambda := Function.update s.lambda v (some (fn, true))
        rearmed := bump s.rearmed fn !active_ }
    | none => none
  | .deactivate v =>
    match s.lambda v with
    | some (fn, active_) =>
      some { s with
        lambda := Function.update s.lambda v (some (fn, false))
        disarmed := bump s.disarmed fn active_ }
    | none => none
  | .destroy v =>
    match s.lambda v with
    | some (fn, active_) =>
      some { s with
        lambda := Function.update s.lambda v none
        runs := bump s.runs fn active_ }
    | none => none

/-- The variable will run the function when it is destroyed. -/
def Pending (f : F) (l : Option (F × Bool)) : Prop := l = some (f, true)

instance (f : F) : DecidablePred (Pending f) :=
  fun l => inferInstanceAs (Decidable (l = some (f, true)))

/-- What was due to run has run, was disarmed or overwritten, or is pending. -/
def Balanced (f : F) (s : State H F) : Prop :=
  ((s.runs f + s.disarmed f + s.overwritten f : ℕ) : ℕ∞) + headcount (Pending f) s.lambda =
    ((s.made f + s.doubled f + s.rearmed f : ℕ) : ℕ∞)

theorem bump_apply (count : F → ℕ) (fn f : F) (b : Bool) :
    bump count fn b f = count f + (if fn = f ∧ b = true then 1 else 0) := by
  unfold bump
  cases b with
  | false => simp
  | true =>
    rw [if_pos rfl, Function.update_apply]
    by_cases hf : f = fn
    · rw [if_pos hf, hf]
      simp
    · rw [if_neg hf]
      simp [Ne.symm hf]

omit [DecidableEq F] in
theorem pending_some (f fn : F) (active_ : Bool) :
    Pending f (some (fn, active_)) ↔ fn = f ∧ active_ = true := by
  simp [Pending]

/-- One variable changes, and the counts by as much. -/
theorem Balanced.change {f : F} {s : State H F} (s' : State H F) (v : H) (l : Option (F × Bool))
    (hs : Balanced f s) (hlambda : s'.lambda = Function.update s.lambda v l)
    (hcount : s'.runs f + s'.disarmed f + s'.overwritten f +
        (s.made f + s.doubled f + s.rearmed f) + counts (Pending f) l =
      s.runs f + s.disarmed f + s.overwritten f +
        (s'.made f + s'.doubled f + s'.rearmed f) + counts (Pending f) (s.lambda v)) :
    Balanced f s' := by
  have hupdate := headcount_update (Pending f) s.lambda v l
  rw [← hlambda] at hupdate
  unfold Balanced at hs ⊢
  obtain ⟨_, before, _, hbefore⟩ := exists_nat_of_add_eq _ _ _ hs
  rw [hbefore] at hs hupdate
  obtain ⟨after, _, hafter, _⟩ := exists_nat_of_add_eq _ _ (before + counts (Pending f) l)
    (by exact_mod_cast hupdate)
  rw [hafter] at hupdate ⊢
  norm_cast at hs hupdate ⊢
  omega

theorem counts_pending (f fn : F) (active_ : Bool) :
    counts (Pending f) (some (fn, active_)) = if fn = f ∧ active_ = true then 1 else 0 := by
  unfold counts
  congr 1
  exact propext (pending_some f fn active_)

theorem counts_none (f : F) : counts (Pending f) none = 0 := by
  simp [counts, Pending]

theorem balanced_step (f : F) (s : State H F) (op : Op H F) (s' : State H F)
    (h : step s op = some s') (hs : Balanced f s) : Balanced f s' := by
  cases op with
  | make v fn =>
    rcases hv : s.lambda v with _ | l
    · simp only [step, hv] at h
      obtain rfl := Option.some.inj h
      refine hs.change _ v _ rfl ?_
      simp only [bump_apply, counts_pending, counts_none, hv]
      omega
    · simp [step, hv] at h
  | move v from_ =>
    rcases hv : s.lambda v with _ | l
    · rcases hfrom : s.lambda from_ with _ | ⟨fn, active_⟩
      · simp [step, hv, hfrom] at h
      · simp only [step, hv, hfrom] at h
        obtain rfl := Option.some.inj h
        refine hs.change _ v _ rfl ?_
        simp only [bump_apply, counts_pending, counts_none, hv]
        omega
    · simp [step, hv] at h
  | assign v from_ =>
    rcases hv : s.lambda v with _ | ⟨old, armed⟩
    · simp [step, hv] at h
    · rcases hfrom : s.lambda from_ with _ | ⟨fn, active_⟩
      · simp [step, hv, hfrom] at h
      · simp only [step, hv, hfrom] at h
        obtain rfl := Option.some.inj h
        refine hs.change _ v _ rfl ?_
        simp only [bump_apply, counts_pending, hv]
        omega
  | run_and_expire v =>
    rcases hv : s.lambda v with _ | ⟨fn, active_⟩
    · simp [step, hv] at h
    · simp only [step, hv] at h
      obtain rfl := Option.some.inj h
      refine hs.change _ v _ rfl ?_
      simp only [bump_apply, counts_pending, hv, Bool.false_eq_true, and_false, if_false]
      omega
  | activate v =>
    rcases hv : s.lambda v with _ | ⟨fn, active_⟩
    · simp [step, hv] at h
    · simp only [step, hv] at h
      obtain rfl := Option.some.inj h
      refine hs.change _ v _ rfl ?_
      simp only [bump_apply, counts_pending, hv]
      cases active_ with
      | false =>
        simp only [Bool.not_false, Bool.false_eq_true, and_false, if_false]
        omega
      | true => simp
  | deactivate v =>
    rcases hv : s.lambda v with _ | ⟨fn, active_⟩
    · simp [step, hv] at h
    · simp only [step, hv] at h
      obtain rfl := Option.some.inj h
      refine hs.change _ v _ rfl ?_
      simp only [bump_apply, counts_pending, hv, Bool.false_eq_true, and_false, if_false]
      omega
  | destroy v =>
    rcases hv : s.lambda v with _ | ⟨fn, active_⟩
    · simp [step, hv] at h
    · simp only [step, hv] at h
      obtain rfl := Option.some.inj h
      refine hs.change _ v _ rfl ?_
      simp only [bump_apply, counts_pending, counts_none, hv]
      omega

omit [DecidableEq H] [DecidableEq F] in
theorem balanced_init (f : F) : Balanced f (init : State H F) := by
  unfold Balanced
  rw [headcount_eq_zero (Pending f) (init : State H F).lambda fun v => by simp [init, Pending]]
  rfl

/-- When no variable is left that would run it, a function that was wrapped once has run
exactly once if and only if it was disarmed or overwritten as often as a move or an
assignment doubled it or an activate armed it again. -/
theorem exactly_once_iff (s : State H F) (h : Reachable step init s) (f : F)
    (hmade : s.made f = 1) (hgone : ∀ v, s.lambda v ≠ some (f, true)) :
    s.runs f = 1 ↔ s.doubled f + s.rearmed f = s.disarmed f + s.overwritten f := by
  have hbalanced := reachable_invariant (balanced_step f) h (balanced_init f)
  unfold Balanced at hbalanced
  rw [headcount_eq_zero (Pending f) s.lambda hgone, add_zero] at hbalanced
  norm_cast at hbalanced
  omega

/-- One variable is assigned to another, and disarmed: its function runs once, and that of
the other, which the assignment has overwritten, not at all. -/
theorem exactly_once_iff_assigned :
    let ops : List (Op ℕ ℕ) := [.make 0 7, .make 1 8, .assign 1 0, .deactivate 0, .destroy 0,
      .destroy 1]
    ∃ s, run step init ops = some s ∧
      (s.runs 7 = 1 ↔ s.doubled 7 + s.rearmed 7 = s.disarmed 7 + s.overwritten 7) ∧
      (s.runs 8 = 1 ↔ s.doubled 8 + s.rearmed 8 = s.disarmed 8 + s.overwritten 8) ∧
      s.runs 7 = 1 ∧ s.runs 8 = 0 := by
  intro ops
  have hgone : ∃ s, run step init ops = some s ∧ s.made 7 = 1 ∧ s.made 8 = 1 ∧
      s.runs 7 = 1 ∧ s.runs 8 = 0 ∧ ∀ v, s.lambda v = none := by
    refine ⟨_, rfl, rfl, rfl, rfl, rfl, ?_⟩
    intro v
    simp only [Function.update_apply, init]
    split_ifs <;> rfl
  obtain ⟨s, hs, hseven, height, hrun, hdropped, hnone⟩ := hgone
  exact ⟨s, hs, exactly_once_iff s ⟨ops, hs⟩ 7 hseven (by simp [hnone]),
    exactly_once_iff s ⟨ops, hs⟩ 8 height (by simp [hnone]), hrun, hdropped⟩

/-- DEFER with both moves of its initialisation carried out, the one out of MakeScopedLambda
and the one into the variable. -/
example : (run step init [.make 0 (), .move 1 0, .destroy 0, .move 2 1, .destroy 1, .destroy 2]).map
    (fun s : State ℕ Unit => s.runs ()) = some 3 := rfl

end JvmTrace.ScopedLambda
