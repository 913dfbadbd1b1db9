import Mathlib

/-!
While loops as functions, with the number of rounds allowed for. A loop answers
`none` when a round of its body does not return or the rounds are used up. A loop
that ends is given by the states it goes through. Tables that are walked entry by
entry are indexed from 0, and the last entry of a kind is the one that counts.
Links that end are followed without meeting a place twice, and several places are
searched up to the first answer. Nothing here names a program.
-/
namespace JvmTrace.Loops

section While

variable {S : Type*}

def whileLoop (cond : S → Bool) (body : S → Option S) : ℕ → S → Option S
  | 0, _ => none
  | rounds + 1, s => if cond s then (body s).bind (whileLoop cond body rounds) else some s

variable {cond : S → Bool} {body : S → Option S}

theorem whileLoop_stop (rounds : ℕ) (s : S) (hstop : cond s = false) (hpos : 0 < rounds) :
    whileLoop cond body rounds s = some s := by
  obtain ⟨r, rfl⟩ : ∃ r, rounds = r + 1 := ⟨rounds - 1, by omega⟩
  simp [whileLoop, hstop]

/-- Partial correctness: what every round preserves holds at the end. -/
theorem whileLoop_preserves (inv : S → Prop)
    (hround : ∀ s t, inv s → body s = some t → inv t) (rounds : ℕ) (s t : S) (hs : inv s)
    (hloop : whileLoop cond body rounds s = some t) : inv t := by
  induction rounds generalizing s with
  | zero => simp [whileLoop] at hloop
  | succ rounds ih =>
    unfold whileLoop at hloop
    by_cases hcond : cond s = true
    · rw [if_pos hcond] at hloop
      obtain ⟨u, hbody, hrest⟩ := Option.bind_eq_some_iff.1 hloop
      exact ih u (hround s u hs hbody) hrest
    · rw [if_neg hcond] at hloop
      obtain rfl : s = t := Option.some.inj hloop
      exact hs

/-- The states of a loop that ends after n rounds. -/
theorem whileLoop_trajectory (state : ℕ → S) (n : ℕ)
    (hround : ∀ i < n, cond (state i) = true ∧ body (state i) = some (state (i + 1)))
    (hstop : cond (state n) = false) (rounds : ℕ) (hrounds : n < rounds) :
    whileLoop cond body rounds (state 0) = some (state n) := by
  have hfrom : ∀ k i, i + k = n → ∀ rounds, k < rounds →
      whileLoop cond body rounds (state i) = some (state n) := by
    intro k
    induction k with
    | zero =>
      intro i hi rounds hlt
      obtain rfl : i = n := by omega
      exact whileLoop_stop rounds (state i) hstop hlt
    | succ k ih =>
      intro i hi rounds hlt
      obtain ⟨r, rfl⟩ : ∃ r, rounds = r + 1 := ⟨rounds - 1, by omega⟩
      obtain ⟨hcond, hbody⟩ := hround i (by omega)
      unfold whileLoop
      rw [if_pos hcond, hbody, Option.bind_some]
      exact ih (i + 1) (by omega) r (by omega)
  exact hfrom n 0 (by omega) rounds hrounds

/-- A loop that goes from state to state has stopped at the first one that fails its
condition. -/
theorem whileLoop_states (state : ℕ → S) (hbody : ∀ i, body (state i) = some (state (i + 1)))
    (rounds i : ℕ) (t : S) (hloop : whileLoop cond body rounds (state i) = some t) :
    ∃ n, i ≤ n ∧ n < i + rounds ∧ t = state n ∧ cond (state n) = false ∧
      ∀ j, i ≤ j → j < n → cond (state j) = true := by
  induction rounds generalizing i with
  | zero => simp [whileLoop] at hloop
  | succ rounds ih =>
    unfold whileLoop at hloop
    by_cases hcond : cond (state i) = true
    · rw [if_pos hcond, hbody, Option.bind_some] at hloop
      obtain ⟨n, hin, hlt, ht, hstop, hgo⟩ := ih (i + 1) hloop
      refine ⟨n, by omega, by omega, ht, hstop, ?_⟩
      intro j hij hjn
      by_cases hj : j = i
      · rw [hj]
        exact hcond
      · exact hgo j (by omega) hjn
    · rw [if_neg hcond] at hloop
      obtain rfl : state i = t := Option.some.inj hloop
      refine ⟨i, by omega, by omega, rfl, by simpa using hcond, ?_⟩
      intro j hij hji
      omega

/-- The states in which the condition of a loop is tested. -/
def visited (cond : S → Bool) (body : S → Option S) : ℕ → S → List S
  | 0, _ => []
  | rounds + 1, s => s :: if cond s then (body s).elim [] (visited cond body rounds) else []

/-- A loop that ends after n rounds has visited the states up to there. -/
theorem mem_visited_iff (state : ℕ → S) (n : ℕ)
    (hround : ∀ i < n, cond (state i) = true ∧ body (state i) = some (state (i + 1)))
    (hstop : cond (state n) = false) (rounds : ℕ) (hrounds : n < rounds) (s : S) :
    s ∈ visited cond body rounds (state 0) ↔ ∃ i ≤ n, s = state i := by
  have hfrom : ∀ k i, i + k = n → ∀ rounds, k < rounds →
      (s ∈ visited cond body rounds (state i) ↔ ∃ j, i ≤ j ∧ j ≤ n ∧ s = state j) := by
    intro k
    induction k with
    | zero =>
      intro i hi rounds hlt
      obtain ⟨r, rfl⟩ : ∃ r, rounds = r + 1 := ⟨rounds - 1, by omega⟩
      obtain rfl : i = n := by omega
      simp only [visited, hstop, Bool.false_eq_true, if_false, List.mem_singleton]
      constructor
      · intro hs
        exact ⟨i, by omega, by omega, hs⟩
      · intro h
        obtain ⟨j, hij, hji, hs⟩ := h
        obtain rfl : j = i := by omega
        exact hs
    | succ k ih =>
      intro i hi rounds hlt
      obtain ⟨r, rfl⟩ : ∃ r, rounds = r + 1 := ⟨rounds - 1, by omega⟩
      obtain ⟨hcond, hbody⟩ := hround i (by omega)
      simp only [visited, hcond, if_true, hbody, Option.elim_some, List.mem_cons,
        ih (i + 1) (by omega) r (by omega)]
      constructor
      · intro h
        rcases h with hs | ⟨j, hij, hjn, hs⟩
        · exact ⟨i, by omega, by omega, hs⟩
        · exact ⟨j, by omega, hjn, hs⟩
      · intro h
        obtain ⟨j, hij, hjn, hs⟩ := h
        by_cases hj : j = i
        · exact Or.inl (hj ▸ hs)
        · exact Or.inr ⟨j, by omega, hjn, hs⟩
  rw [hfrom n 0 (by omega) rounds hrounds]
  simp

end While

section Tables

variable {α : Type*}

/-- The first index at which an entry is hit. -/
def FirstAt (hit : α → Prop) (entry : ℕ → α) (n : ℕ) : Prop :=
  hit (entry n) ∧ ∀ i < n, ¬ hit (entry i)

theorem FirstAt.le {hit : α → Prop} {entry : ℕ → α} {n i : ℕ} (h : FirstAt hit entry n)
    (hi : hit (entry i)) : n ≤ i := by
  by_contra hlt
  exact h.2 i (by omega) hi

theorem FirstAt.unique {hit : α → Prop} {entry : ℕ → α} {n k : ℕ} (hn : FirstAt hit entry n)
    (hk : FirstAt hit entry k) : n = k :=
  Nat.le_antisymm (hn.le hk.1) (hk.le hn.1)

theorem exists_firstAt (hit : α → Prop) (entry : ℕ → α) (n : ℕ) (h : hit (entry n)) :
    ∃ k ≤ n, FirstAt hit entry k := by
  classical
  have hex : ∃ i, hit (entry i) := ⟨n, h⟩
  exact ⟨Nat.find hex, Nat.find_le h, Nat.find_spec hex, fun i hi => Nat.find_min hex hi⟩

/-- A table that repeats itself has its first hit in the first period. -/
theorem FirstAt.lt_period {hit : α → Prop} {entry : ℕ → α} {n period : ℕ}
    (h : FirstAt hit entry n) (hpos : 0 < period) (hperiod : ∀ i, entry (i % period) = entry i) :
    n < period := by
  have hhit : hit (entry (n % period)) := by
    rw [hperiod n]
    exact h.1
  have hle := h.le hhit
  have hlt := Nat.mod_lt n hpos
  omega

/-- The last of the first n entries that is hit. -/
def lastHit (hit : α → Bool) (entry : ℕ → α) : ℕ → Option α
  | 0 => none
  | n + 1 => if hit (entry n) then some (entry n) else lastHit hit entry n

theorem lastHit_isSome (hit : α → Bool) (entry : ℕ → α) (n i : ℕ) (hi : i < n)
    (hhit : hit (entry i) = true) : ∃ a, lastHit hit entry n = some a ∧ hit a = true := by
  induction n with
  | zero => omega
  | succ n ih =>
    unfold lastHit
    by_cases hn : hit (entry n) = true
    · exact ⟨entry n, by simp [hn], hn⟩
    · have hlt : i < n := by
        have hne : i ≠ n := by
          rintro rfl
          exact hn hhit
        omega
      simpa [hn] using ih hlt

/-- When only every k-th entry can be hit, the others need not be looked at. -/
theorem lastHit_stride (hit : α → Bool) (entry : ℕ → α) (k : ℕ) (hk : 0 < k) (n : ℕ)
    (h : ∀ i < n, i % k ≠ 0 → ¬ hit (entry i) = true) :
    lastHit hit entry n = lastHit hit (fun i => entry (k * i)) ((n + (k - 1)) / k) := by
  induction n with
  | zero =>
    rw [Nat.zero_add, Nat.div_eq_of_lt (by omega)]
    rfl
  | succ n ih =>
    have hdivmod := Nat.div_add_mod' n k
    have hlt := Nat.mod_lt n hk
    have hround : (n + 1 + (k - 1)) / k = n / k + 1 := by
      rw [Nat.div_eq_iff hk, Nat.add_mul]
      omega
    have hold := ih fun i hi => h i (by omega)
    rw [hround]
    conv_lhs => unfold lastHit
    by_cases hn : n % k = 0
    · have hbefore : (n + (k - 1)) / k = n / k := by
        rw [Nat.div_eq_iff hk]
        omega
      have hindex : k * (n / k) = n := by
        rw [Nat.mul_comm]
        omega
      conv_rhs => unfold lastHit
      rw [hindex, hold, hbefore]
    · have hbefore : (n + (k - 1)) / k = n / k + 1 := by
        rw [Nat.div_eq_iff hk, Nat.add_mul]
        omega
      rw [if_neg (h n (by omega) hn), hold, hbefore]

/-- The state after the first n entries have been taken in, in order. -/
def takeIn {S : Type*} (step : S → α → S) (entry : ℕ → α) (s : S) : ℕ → S
  | 0 => s
  | n + 1 => step (takeIn step entry s n) (entry n)

/-- `for (i = 0; i < bound; i++)` over a table with a break at a hit: the index it
is left with and the entry read last. -/
def searchFrom (bound : ℤ) (entry : ℕ → α) (hit : ℕ → Bool) : ℕ → ℕ → α → Option (ℕ × α)
  | 0, _, _ => none
  | rounds + 1, i, last =>
    if (i : ℤ) < bound then
      if hit i then some (i, entry i)
      else searchFrom bound entry hit rounds (i + 1) (entry i)
    else some (i, last)

theorem searchFrom_hit (bound : ℤ) (entry : ℕ → α) (hit : ℕ → Bool) (n : ℕ)
    (hn : (n : ℤ) < bound) (hfirst : FirstAt (fun i => hit i = true) id n) (rounds i : ℕ)
    (last : α) (hi : i ≤ n) (hrounds : n < i + rounds) :
    searchFrom bound entry hit rounds i last = some (n, entry n) := by
  induction rounds generalizing i last with
  | zero => omega
  | succ rounds ih =>
    unfold searchFrom
    rw [if_pos (by omega)]
    by_cases hin : i = n
    · subst hin
      have hhit : hit i = true := hfirst.1
      rw [if_pos hhit]
    · have hmiss : ¬ hit i = true := hfirst.2 i (by omega)
      rw [if_neg hmiss]
      exact ih (i + 1) (entry i) (by omega) (by omega)

theorem searchFrom_miss (bound : ℕ) (entry : ℕ → α) (hit : ℕ → Bool)
    (hmiss : ∀ i < bound, ¬ hit i = true) (rounds i : ℕ) (last : α) (hi : i ≤ bound)
    (hrounds : bound < i + rounds) :
    ∃ x, searchFrom bound entry hit rounds i last = some (bound, x) := by
  induction rounds generalizing i last with
  | zero => omega
  | succ rounds ih =>
    unfold searchFrom
    by_cases hin : i = bound
    · subst hin
      rw [if_neg (by omega)]
      exact ⟨last, rfl⟩
    · rw [if_pos (by omega), if_neg (hmiss i (by omega))]
      exact ih (i + 1) (entry i) (by omega) (by omega)

/-- Where a search can be left. -/
theorem searchFrom_some (bound : ℕ) (entry : ℕ → α) (hit : ℕ → Bool) (rounds i n : ℕ)
    (last x : α) (hi : i ≤ bound)
    (h : searchFrom bound entry hit rounds i last = some (n, x)) :
    n = bound ∨ (n < bound ∧ n < i + rounds ∧ hit n = true) := by
  induction rounds generalizing i last with
  | zero => cases h
  | succ rounds ih =>
    unfold searchFrom at h
    split_ifs at h with hlt hhit
    · obtain ⟨rfl, rfl⟩ := Prod.mk.inj (Option.some.inj h)
      exact Or.inr ⟨by omega, by omega, hhit⟩
    · rcases ih (i + 1) (entry i) (by omega) h with hbound | hfound
      · exact Or.inl hbound
      · exact Or.inr ⟨hfound.1, by omega, hfound.2.2⟩
    · obtain ⟨rfl, rfl⟩ := Prod.mk.inj (Option.some.inj h)
      exact Or.inl (by omega)

/-- A search from the start is left at the first hit, or at the bound. -/
theorem searchFrom_cases (bound : ℕ) (entry : ℕ → α) (hit : ℕ → Bool) (P : ℕ → Prop)
    (hhit : ∀ i, hit i = true ↔ P i) (rounds : ℕ) (last : α) (hrounds : bound < rounds) :
    (∃ i < bound, FirstAt P id i ∧
      searchFrom bound entry hit rounds 0 last = some (i, entry i)) ∨
    ((∀ i < bound, ¬ P i) ∧
      ∃ x, searchFrom bound entry hit rounds 0 last = some (bound, x)) := by
  by_cases hex : ∃ k < bound, P k
  · obtain ⟨k, hk, hpk⟩ := hex
    obtain ⟨i, hik, hfirst⟩ := exists_firstAt P id k hpk
    have hfirst' : FirstAt (fun i => hit i = true) id i := by
      refine ⟨(hhit i).2 hfirst.1, ?_⟩
      intro j hj hhitj
      exact hfirst.2 j hj ((hhit j).1 hhitj)
    exact Or.inl ⟨i, by omega, hfirst,
      searchFrom_hit bound entry hit i (by omega) hfirst' rounds 0 last (by omega) (by omega)⟩
  · have hmiss : ∀ i < bound, ¬ P i := by
      intro i hi hpi
      exact hex ⟨i, hi, hpi⟩
    exact Or.inr ⟨hmiss, searchFrom_miss bound entry hit
      (fun i hi hhiti => hmiss i hi ((hhit i).1 hhiti)) rounds 0 last (by omega) (by omega)⟩

theorem searchFrom_empty (bound : ℤ) (entry : ℕ → α) (hit : ℕ → Bool) (rounds i : ℕ) (last : α)
    (hpos : 0 < rounds) (hbound : bound ≤ i) :
    searchFrom bound entry hit rounds i last = some (i, last) := by
  obtain ⟨r, rfl⟩ : ∃ r, rounds = r + 1 := ⟨rounds - 1, by omega⟩
  unfold searchFrom
  rw [if_neg (by omega)]

/-- Such a search depends on the table only below its bound. -/
theorem searchFrom_congr (bound : ℤ) (entry entry' : ℕ → α) (hit hit' : ℕ → Bool)
    (h : ∀ i : ℕ, (i : ℤ) < bound → entry i = entry' i ∧ hit i = hit' i) (rounds i : ℕ)
    (last : α) :
    searchFrom bound entry hit rounds i last = searchFrom bound entry' hit' rounds i last := by
  induction rounds generalizing i last with
  | zero => rfl
  | succ rounds ih =>
    unfold searchFrom
    by_cases hi : (i : ℤ) < bound
    · obtain ⟨hentry, hhit⟩ := h i hi
      rw [if_pos hi, if_pos hi, hentry, hhit, ih]
    · rw [if_neg hi, if_neg hi]

theorem searchFrom_returns (bound : ℤ) (entry : ℕ → α) (hit : ℕ → Bool) (rounds i : ℕ)
    (last : α) (hpos : 0 < rounds) (hrounds : bound < i + rounds) :
    ∃ x, searchFrom bound entry hit rounds i last = some x := by
  induction rounds generalizing i last with
  | zero => omega
  | succ rounds ih =>
    unfold searchFrom
    by_cases hi : (i : ℤ) < bound
    · rw [if_pos hi]
      by_cases hhit : hit i = true
      · exact ⟨_, if_pos hhit⟩
      · rw [if_neg hhit]
        exact ih (i + 1) (entry i) (by omega) (by push_cast at hrounds ⊢; omega)
    · exact ⟨_, if_neg hi⟩

end Tables

section Links

variable {α : Type*}

/-- The places that the links lead through, up to one with no link. -/
def Follows (next : α → Option α) : List α → Option α → Prop
  | [], start => start = none
  | a :: rest, start => start = some a ∧ Follows next rest (next a)

variable {next : α → Option α}

theorem Follows.unique {places places' : List α} {start : Option α}
    (h : Follows next places start) (h' : Follows next places' start) : places = places' := by
  induction places generalizing places' start with
  | nil =>
    obtain rfl : start = none := h
    cases places' with
    | nil => rfl
    | cons a rest => simp [Follows] at h'
  | cons a rest ih =>
    obtain ⟨rfl, hrest⟩ := h
    cases places' with
    | nil => simp [Follows] at h'
    | cons b rest' =>
      obtain ⟨hb, hrest'⟩ := h'
      obtain rfl : a = b := Option.some.inj hb
      rw [ih hrest hrest']

theorem Follows.tail {before after : List α} {a : α} {start : Option α}
    (h : Follows next (before ++ a :: after) start) : Follows next after (next a) := by
  induction before generalizing start with
  | nil => exact h.2
  | cons b before ih => exact ih h.2

/-- Links that end do not come back to a place. -/
theorem Follows.nodup {places : List α} {start : Option α} (h : Follows next places start) :
    places.Nodup := by
  induction places generalizing start with
  | nil => exact List.nodup_nil
  | cons a rest ih =>
    refine List.nodup_cons.2 ⟨?_, ih h.2⟩
    intro hmem
    obtain ⟨before, after, hrest⟩ := List.append_of_mem hmem
    have htail : Follows next after (next a) := by
      apply Follows.tail
      rw [← hrest]
      exact h.2
    have hsame := h.2.unique htail
    have hlen := congrArg List.length (hrest.symm.trans hsame)
    simp only [List.length_append, List.length_cons] at hlen
    omega

end Links

section Searches

variable {ι G W : Type*} [Zero W]

/-- The places are asked in turn, each with what the one before has left, up to the
first answer that is not zero. -/
def firstAnswer [DecidableEq W] (search : ι → G → Option (W × G)) : List ι → G → Option (W × G)
  | [], g => some (0, g)
  | place :: rest, g =>
    (search place g).bind fun answer =>
      if answer.1 = 0 then firstAnswer search rest answer.2 else some answer

/-- All the places answer zero, one after the other. -/
def AllZero (search : ι → G → Option (W × G)) : List ι → G → G → Prop
  | [], g, g' => g' = g
  | place :: rest, g, g' => ∃ g₁, search place g = some (0, g₁) ∧ AllZero search rest g₁ g'

variable [DecidableEq W] (search : ι → G → Option (W × G))

theorem firstAnswer_eq_zero_iff (places : List ι) (g g' : G) :
    firstAnswer search places g = some (0, g') ↔ AllZero search places g g' := by
  induction places generalizing g with
  | nil => simp [firstAnswer, AllZero, eq_comm]
  | cons place rest ih =>
    unfold firstAnswer AllZero
    rcases hplace : search place g with _ | ⟨answer, g₁⟩
    · simp
    · by_cases hzero : answer = 0
      · subst hzero
        simp [ih]
      · simp [hzero]

/-- Any other outcome is that of one of the places, after all before it have answered zero. -/
theorem firstAnswer_eq_iff (places : List ι) (g : G) (outcome : Option (W × G))
    (hne : ∀ g', outcome ≠ some (0, g')) :
    firstAnswer search places g = outcome ↔
      ∃ before place after g₁, places = before ++ place :: after ∧
        AllZero search before g g₁ ∧ search place g₁ = outcome := by
  induction places generalizing g with
  | nil =>
    have hleft : firstAnswer search [] g ≠ outcome := fun h => hne g h.symm
    simp [hleft]
  | cons place rest ih =>
    constructor
    · intro h
      unfold firstAnswer at h
      rcases hplace : search place g with _ | ⟨answer, g₁⟩
      · rw [hplace] at h
        exact ⟨[], place, rest, g, rfl, rfl, hplace.trans h⟩
      · simp only [hplace, Option.bind_some] at h
        by_cases hzero : answer = 0
        · subst hzero
          rw [if_pos rfl] at h
          obtain ⟨before, found, after, g₂, hrest, hall, hfound⟩ := (ih g₁).1 h
          exact ⟨place :: before, found, after, g₂, by rw [hrest]; rfl, ⟨g₁, hplace, hall⟩, hfound⟩
        · rw [if_neg hzero] at h
          exact ⟨[], place, rest, g, rfl, rfl, hplace.trans h⟩
    · intro h
      obtain ⟨before, found, after, g₁, hplaces, hall, hfound⟩ := h
      unfold firstAnswer
      cases before with
      | nil =>
        obtain ⟨rfl, rfl⟩ := List.cons.inj hplaces
        obtain rfl : g₁ = g := hall
        rw [hfound]
        rcases outcome with _ | ⟨answer, g₂⟩
        · rfl
        · have hnz : answer ≠ 0 := fun hz => hne g₂ (by rw [hz])
          simp [hnz]
      | cons first before =>
        obtain ⟨rfl, hrest⟩ := List.cons.inj hplaces
        obtain ⟨g₂, hplace, hall⟩ := hall
        rw [hplace, Option.bind_some, if_pos rfl]
        exact (ih g₂).2 ⟨before, found, after, g₁, hrest, hall, hfound⟩

end Searches

end JvmTrace.Loops
