import Mathlib.Logic.Basic
import Mathlib.Data.Nat.Notation

/-!
Runs of guarded step functions. A step answers `none` when its action is not
enabled, so one definition is replayed on a concrete schedule and reasoned
about on every schedule. An invariant is carried by one step and then by any
run; a conditional invariant is carried only by the steps that meet a
condition in the state they start from, and a condition may also look at a
record kept beside the state. Nothing here names a program.
-/
namespace JvmTrace.Runs

variable {S A : Type*}

/-- Replay the actions in order; `none` as soon as one is not enabled. -/
def run (step : S → A → Option S) : S → List A → Option S
  | s, [] => some s
  | s, a :: rest => (step s a).bind fun t => run step t rest

def Reachable (step : S → A → Option S) (init s : S) : Prop :=
  ∃ actions, run step init actions = some s

/-- Every step the schedule takes meets the condition in the state it starts from. -/
def Meets (step : S → A → Option S) (ok : S → A → Prop) : S → List A → Prop
  | _, [] => True
  | s, a :: rest => ∀ t, step s a = some t → ok s a ∧ Meets step ok t rest

/-- Every state the schedule passes through, both ends included, has the property. -/
def Along (step : S → A → Option S) (P : S → Prop) : S → List A → Prop
  | s, [] => P s
  | s, a :: rest => P s ∧ ∀ t, step s a = some t → Along step P t rest

variable {step : S → A → Option S}

theorem run_cons_eq_some (s u : S) (a : A) (rest : List A) :
    run step s (a :: rest) = some u ↔
      ∃ t, step s a = some t ∧ run step t rest = some u := by
  simp only [run, Option.bind_eq_some_iff]

theorem run_append (s : S) (first second : List A) :
    run step s (first ++ second) = (run step s first).bind fun t => run step t second := by
  induction first generalizing s with
  | nil => rfl
  | cons a rest ih =>
    simp only [List.cons_append, run]
    cases step s a with
    | none => rfl
    | some t => exact ih t

theorem reachable_step {init s t : S} {a : A} (h : Reachable step init s)
    (hstep : step s a = some t) : Reachable step init t := by
  obtain ⟨actions, hrun⟩ := h
  refine ⟨actions ++ [a], ?_⟩
  rw [run_append, hrun]
  simp [run, hstep]

/-- The step lemma gives the run lemma. -/
theorem run_invariant {P : S → Prop}
    (hstep : ∀ s a t, step s a = some t → P s → P t)
    {s t : S} {actions : List A} (hrun : run step s actions = some t) (hs : P s) : P t := by
  induction actions generalizing s with
  | nil =>
    cases hrun
    exact hs
  | cons a rest ih =>
    obtain ⟨u, hu, hrest⟩ := (run_cons_eq_some s t a rest).mp hrun
    exact ih hrest (hstep s a u hu hs)

theorem reachable_invariant {P : S → Prop} {init s : S}
    (hstep : ∀ s a t, step s a = some t → P s → P t)
    (h : Reachable step init s) (hinit : P init) : P s := by
  obtain ⟨actions, hrun⟩ := h
  exact run_invariant hstep hrun hinit

/-- A forward simulation: a step is one of the other system, or none. -/
theorem reachable_simulation {S' A' : Type*} {step' : S' → A' → Option S'} {R : S → S' → Prop}
    {init : S} {init' : S'} (hinit : R init init')
    (hsim : ∀ s a t u, Reachable step init s → step s a = some t → R s u →
      R t u ∨ ∃ a' u', step' u a' = some u' ∧ R t u')
    {s : S} (h : Reachable step init s) : ∃ u, Reachable step' init' u ∧ R s u := by
  obtain ⟨actions, hrun⟩ := h
  refine (run_invariant (P := fun s => Reachable step init s ∧ ∃ u, Reachable step' init' u ∧ R s u)
    ?_ hrun ⟨⟨[], rfl⟩, init', ⟨[], rfl⟩, hinit⟩).2
  intro s a t hstep hs
  obtain ⟨hreach, u, hu, hrel⟩ := hs
  refine ⟨reachable_step hreach hstep, ?_⟩
  rcases hsim s a t u hreach hstep hrel with hsame | hmove
  · exact ⟨u, hu, hsame⟩
  · obtain ⟨a', u', hstep', hrel'⟩ := hmove
    exact ⟨u', reachable_step hu hstep', hrel'⟩

/-- A property kept by the steps that meet a condition holds all along every
schedule whose steps meet it. -/
theorem along_of_meets {P : S → Prop} {ok : S → A → Prop}
    (hkeep : ∀ s a t, step s a = some t → ok s a → P s → P t)
    (s : S) (actions : List A) (hs : P s) (hok : Meets step ok s actions) :
    Along step P s actions := by
  induction actions generalizing s with
  | nil => exact hs
  | cons a rest ih =>
    refine ⟨hs, ?_⟩
    intro t ht
    obtain ⟨ha, hrest⟩ := hok t ht
    exact ih t (hkeep s a t ht ha hs) hrest

/-- A condition that the actions meet in any state. -/
theorem meets_of_forall {ok : S → A → Prop} (s : S) (actions : List A)
    (h : ∀ a ∈ actions, ∀ t, ok t a) : Meets step ok s actions := by
  induction actions generalizing s with
  | nil => trivial
  | cons a rest ih =>
    intro t _
    exact ⟨h a (List.mem_cons_self ..) s, ih t fun b hb => h b (List.mem_cons_of_mem a hb)⟩

theorem meets_cons {ok : S → A → Prop} (s t : S) (a : A) (rest : List A)
    (hstep : step s a = some t) (ha : ok s a) (hrest : Meets step ok t rest) :
    Meets step ok s (a :: rest) := by
  intro u hu
  obtain rfl := Option.some.inj (hstep.symm.trans hu)
  exact ⟨ha, hrest⟩

theorem meets_append {ok : S → A → Prop} (s : S) (first second : List A) :
    Meets step ok s (first ++ second) ↔
      Meets step ok s first ∧ ∀ t, run step s first = some t → Meets step ok t second := by
  induction first generalizing s with
  | nil => simp [Meets, run]
  | cons a rest ih =>
    simp only [List.cons_append, Meets, run_cons_eq_some]
    constructor
    · intro h
      refine ⟨fun t ht => ⟨(h t ht).1, ((ih t).mp (h t ht).2).1⟩, ?_⟩
      intro u h
      obtain ⟨t, ht, hu⟩ := h
      exact ((ih t).mp (h t ht).2).2 u hu
    · intro h t ht
      obtain ⟨hfirst, hsecond⟩ := h
      refine ⟨(hfirst t ht).1, (ih t).mpr ⟨(hfirst t ht).2, ?_⟩⟩
      intro u hu
      exact hsecond u ⟨t, ht, hu⟩

theorem Along.head {P : S → Prop} {s : S} {actions : List A}
    (h : Along step P s actions) : P s := by
  cases actions with
  | nil => exact h
  | cons a rest => exact h.1

theorem Along.last {P : S → Prop} {s t : S} {actions : List A} (h : Along step P s actions)
    (hrun : run step s actions = some t) : P t := by
  induction actions generalizing s with
  | nil =>
    obtain rfl := Option.some.inj hrun
    exact h
  | cons a rest ih =>
    obtain ⟨u, hu, hrest⟩ := (run_cons_eq_some s t a rest).mp hrun
    exact ih (h.2 u hu) hrest

theorem Along.mono {P Q : S → Prop} (hPQ : ∀ s, P s → Q s) {s : S} {actions : List A}
    (h : Along step P s actions) : Along step Q s actions := by
  induction actions generalizing s with
  | nil => exact hPQ s h
  | cons a rest ih => exact ⟨hPQ s h.1, fun t ht => ih (h.2 t ht)⟩

/-- When moreover a step that breaks the condition breaks the property, the
condition is exact on every schedule. Both may use an invariant of all steps. -/
theorem along_iff_meets {I P : S → Prop} {ok : S → A → Prop}
    (hinv : ∀ s a t, step s a = some t → I s → I t)
    (hkeep : ∀ s a t, step s a = some t → I s → ok s a → P s → P t)
    (hbreak : ∀ s a t, step s a = some t → I s → P s → P t → ok s a)
    (s : S) (actions : List A) (hs : I s) (hps : P s) :
    Along step P s actions ↔ Meets step ok s actions := by
  induction actions generalizing s with
  | nil => exact ⟨fun _ => trivial, fun _ => hps⟩
  | cons a rest ih =>
    constructor
    · intro halong t ht
      have hpt : P t := (halong.2 t ht).head
      have hrest := ih t (hinv s a t ht hs) hpt
      exact ⟨hbreak s a t ht hs hps hpt, hrest.mp (halong.2 t ht)⟩
    · intro hmeets
      refine ⟨hps, ?_⟩
      intro t ht
      obtain ⟨hok, hrest⟩ := hmeets t ht
      exact (ih t (hinv s a t ht hs) (hkeep s a t ht hs hok hps)).mpr hrest

/-- The same steps with a record kept beside the state. What is recorded of a step may
depend on the state it starts from. -/
def noting {H : Type*} (step : S → A → Option S) (note : S → H → A → H) :
    S × H → A → Option (S × H)
  | (s, h), a => (step s a).map fun t => (t, note s h a)

theorem noting_eq_some {H : Type*} (note : S → H → A → H) (s t : S) (h h' : H) (a : A) :
    noting step note (s, h) a = some (t, h') ↔ step s a = some t ∧ note s h a = h' := by
  simp only [noting, Option.map_eq_some_iff, Prod.mk.injEq]
  constructor
  · intro hnoting
    obtain ⟨u, hu, rfl, hnote⟩ := hnoting
    exact ⟨hu, hnote⟩
  · intro hboth
    exact ⟨t, hboth.1, rfl, hboth.2⟩

/-- The record changes nothing in the schedules and in what they pass through. -/
theorem along_noting {H : Type*} (note : S → H → A → H) (P : S → Prop) (s : S) (h : H)
    (actions : List A) :
    Along (noting step note) (fun p => P p.1) (s, h) actions ↔ Along step P s actions := by
  induction actions generalizing s h with
  | nil => rfl
  | cons a rest ih =>
    simp only [Along]
    constructor
    · intro halong
      refine ⟨halong.1, ?_⟩
      intro t ht
      exact (ih t _).mp (halong.2 _ ((noting_eq_some note s t h _ a).mpr ⟨ht, rfl⟩))
    · intro halong
      refine ⟨halong.1, ?_⟩
      intro p hp
      obtain ⟨t, h'⟩ := p
      exact (ih t h').mpr (halong.2 t ((noting_eq_some note s t h h' a).mp hp).1)

/-- A record that looks at the actions alone is a fold over the schedule. -/
theorem run_noting {H : Type*} (note : H → A → H) (s : S) (h : H) (actions : List A) :
    run (noting step fun _ => note) (s, h) actions =
      (run step s actions).map fun t => (t, actions.foldl note h) := by
  induction actions generalizing s h with
  | nil => rfl
  | cons a rest ih =>
    simp only [run, noting, List.foldl_cons]
    cases step s a with
    | none => rfl
    | some t => exact ih t (note h a)

end JvmTrace.Runs
