import Mathlib

/-!
Maps kept as lists of entries in the order of a comparator, with the searches of an
ordered map: keys that the comparator does not tell apart share an entry, whose key is
the one entered first. A comparator that compares ranks in a linear order keeps the
entries in strictly increasing rank, so an entry stands for the keys of one rank.
-/
namespace JvmTrace.OrderedMaps

variable {K V L : Type*} (lt : K → K → Bool)

/-- The value at the first key that is not before k, when k is not before it either. -/
def find (k : K) : List (K × V) → Option V
  | [] => none
  | e :: m => if lt e.1 k then find k m else if lt k e.1 then none else some e.2

/-- Change the value that find gives. -/
def modify (f : V → V) (k : K) : List (K × V) → List (K × V)
  | [] => []
  | e :: m =>
    if lt e.1 k then e :: modify f k m
    else if lt k e.1 then e :: m else (e.1, f e.2) :: m

/-- Change the value at k, entering k with a default value when it is missing. -/
def alter (default : V) (f : V → V) (k : K) : List (K × V) → List (K × V)
  | [] => [(k, f default)]
  | e :: m =>
    if lt e.1 k then e :: alter default f k m
    else if lt k e.1 then (k, f default) :: e :: m else (e.1, f e.2) :: m

/-- An ordered set, as the keys of a map without values, filled from a list. -/
def keysOf (ks : List K) : List K :=
  (ks.foldl (fun m k => alter lt () id k m) []).map Prod.fst

theorem modify_eq_alter (default : V) (f : V → V) (k : K) (m : List (K × V)) (v : V)
    (h : find lt k m = some v) : modify lt f k m = alter lt default f k m := by
  induction m with
  | nil => simp [find] at h
  | cons e m ih =>
    unfold find at h
    unfold modify alter
    split_ifs at h ⊢ with hbefore hafter
    · rw [ih h]
    · rfl

/-- Appending to the value at k appends to the values taken together, up to order. -/
theorem flatMap_alter_append (k : K) (tag : V) (m : List (K × List V)) :
    ((alter lt [] (fun vs => vs ++ [tag]) k m).flatMap Prod.snd).Perm
      (m.flatMap Prod.snd ++ [tag]) := by
  induction m with
  | nil => simp [alter]
  | cons e m ih =>
    unfold alter
    split_ifs with hbefore hafter
    · simpa only [List.flatMap_cons, List.append_assoc] using ih.append_left e.2
    · simpa only [List.flatMap_cons, List.nil_append] using List.perm_append_comm
    · simp only [List.flatMap_cons, List.append_assoc]
      exact List.perm_append_comm.append_left e.2

variable [LinearOrder L] (rank : K → L)

/-- The comparator compares ranks, so that it is a strict weak order. -/
def Compares : Prop :=
  ∀ a b, lt a b = true ↔ rank a < rank b

def Sorted (m : List (K × V)) : Prop :=
  m.Pairwise fun d e => rank d.1 < rank e.1

variable {lt rank}

/-- What alter leaves: the entries of other ranks, and one of the rank of k. -/
theorem mem_alter_iff (hlt : Compares lt rank) (default : V) (f : V → V) (k : K)
    (m : List (K × V)) (hm : Sorted rank m) (e : K × V) :
    e ∈ alter lt default f k m ↔
      (e ∈ m ∧ rank e.1 ≠ rank k) ∨ (∃ d ∈ m, rank d.1 = rank k ∧ e = (d.1, f d.2)) ∨
        ((∀ d ∈ m, rank d.1 ≠ rank k) ∧ e = (k, f default)) := by
  induction m with
  | nil => simp [alter]
  | cons d m ih =>
    obtain ⟨hd, hm⟩ := List.pairwise_cons.1 hm
    have hbefore : ∀ c ∈ m, ¬ lt d.1 k = true → rank c.1 ≠ rank k := by
      intro c hc hnot heq
      rw [hlt, not_lt] at hnot
      exact absurd (hd c hc) (not_lt.2 (heq.trans_le hnot))
    unfold alter
    split_ifs with hless hmore
    · have hne : rank d.1 ≠ rank k := ((hlt _ _).1 hless).ne
      simp only [List.mem_cons, ih hm]
      grind
    · have hne : rank d.1 ≠ rank k := ((hlt _ _).1 hmore).ne'
      simp only [List.mem_cons]
      grind
    · have heq : rank d.1 = rank k :=
        le_antisymm (not_lt.1 fun h => hmore ((hlt _ _).2 h))
          (not_lt.1 fun h => hless ((hlt _ _).2 h))
      simp only [List.mem_cons]
      grind

theorem sorted_alter (hlt : Compares lt rank) (default : V) (f : V → V) (k : K)
    (m : List (K × V)) (hm : Sorted rank m) : Sorted rank (alter lt default f k m) := by
  induction m with
  | nil => exact List.pairwise_singleton _ _
  | cons d m ih =>
    obtain ⟨hd, htail⟩ := List.pairwise_cons.1 hm
    unfold alter
    split_ifs with hless hmore
    · refine List.pairwise_cons.2 ⟨?_, ih htail⟩
      intro e he
      rcases (mem_alter_iff hlt default f k m htail e).1 he with
        ⟨he', _⟩ | ⟨c, hc, _, rfl⟩ | ⟨_, rfl⟩
      · exact hd e he'
      · exact hd c hc
      · exact (hlt _ _).1 hless
    · refine List.pairwise_cons.2 ⟨?_, hm⟩
      intro e he
      rcases List.mem_cons.1 he with rfl | he'
      · exact (hlt _ _).1 hmore
      · exact ((hlt _ _).1 hmore).trans (hd e he')
    · exact List.pairwise_cons.2 ⟨hd, htail⟩

/-- With a rank that tells all keys apart, the set holds each key of the list once, in
increasing rank. -/
theorem keysOf_spec (hlt : Compares lt rank) (hinj : Function.Injective rank) (ks : List K) :
    ((keysOf lt ks).Pairwise fun a b => rank a < rank b) ∧ ∀ k, k ∈ keysOf lt ks ↔ k ∈ ks := by
  have hfold : ∀ ks : List K,
      Sorted rank (ks.foldl (fun m k => alter lt () id k m) []) ∧
        ∀ k, (∃ e ∈ ks.foldl (fun m k => alter lt () id k m) [], e.1 = k) ↔ k ∈ ks := by
    intro ks
    induction ks using List.reverseRecOn with
    | nil => simp [Sorted]
    | append_singleton ks c ih =>
      obtain ⟨hsorted, hmem⟩ := ih
      rw [List.foldl_append, List.foldl_cons, List.foldl_nil]
      refine ⟨sorted_alter hlt _ _ c _ hsorted, ?_⟩
      intro k
      rw [List.mem_append, List.mem_singleton, ← hmem k]
      have halter := mem_alter_iff hlt () id c _ hsorted
      constructor
      · intro h
        obtain ⟨e, he, rfl⟩ := h
        rcases (halter e).1 he with ⟨he', _⟩ | ⟨d, hd, hrank, rfl⟩ | ⟨_, rfl⟩
        · exact Or.inl ⟨e, he', rfl⟩
        · exact Or.inr (hinj hrank)
        · exact Or.inr rfl
      · intro h
        by_cases hc : ∃ d ∈ ks.foldl (fun m k => alter lt () id k m) [], rank d.1 = rank c
        · obtain ⟨d, hd, hrank⟩ := hc
          have hin : d ∈ alter lt () id c (ks.foldl (fun m k => alter lt () id k m) []) :=
            (halter d).2 (Or.inr (Or.inl ⟨d, hd, hrank, rfl⟩))
          rcases h with ⟨e, he, rfl⟩ | rfl
          · by_cases hrank' : rank e.1 = rank c
            · exact ⟨d, hin, hinj (hrank.trans hrank'.symm)⟩
            · exact ⟨e, (halter e).2 (Or.inl ⟨he, hrank'⟩), rfl⟩
          · exact ⟨d, hin, hinj hrank⟩
        · push Not at hc
          rcases h with ⟨e, he, rfl⟩ | rfl
          · exact ⟨e, (halter e).2 (Or.inl ⟨he, hc e he⟩), rfl⟩
          · exact ⟨(k, id ()), (halter _).2 (Or.inr (Or.inr ⟨hc, rfl⟩)), rfl⟩
  obtain ⟨hsorted, hmem⟩ := hfold ks
  constructor
  · unfold keysOf
    rw [List.pairwise_map]
    exact hsorted
  · intro k
    rw [← hmem k, keysOf, List.mem_map]

theorem nodup_keysOf (hlt : Compares lt rank) (hinj : Function.Injective rank) (ks : List K) :
    (keysOf lt ks).Nodup := by
  apply (keysOf_spec hlt hinj ks).1.imp
  intro a b hless heq
  rw [heq] at hless
  exact lt_irrefl _ hless

variable (rank)

/-- The map holds, for every rank among the items, the tags of the items of that rank in
their order, in one entry whose key is an item. -/
structure Groups (tag : K → V) (items : List K) (m : List (K × List V)) : Prop where
  sorted : Sorted rank m
  value : ∀ e ∈ m, e.2 = (items.filter fun k => decide (rank k = rank e.1)).map tag
  key : ∀ e ∈ m, e.1 ∈ items
  covered : ∀ k ∈ items, ∃ e ∈ m, rank e.1 = rank k

variable {rank}

theorem groups_nil (tag : K → V) : Groups rank tag [] [] :=
  ⟨List.Pairwise.nil, by simp, by simp, by simp⟩

/-- One more item, whose tag goes to the end of the entry of its rank. -/
theorem Groups.append (hlt : Compares lt rank) (tag : K → V) (items : List K)
    (m : List (K × List V)) (h : Groups rank tag items m) (k : K) :
    Groups rank tag (items ++ [k]) (alter lt [] (fun vs => vs ++ [tag k]) k m) := by
  have hmem := mem_alter_iff hlt [] (fun vs => vs ++ [tag k]) k m h.sorted
  refine ⟨sorted_alter hlt _ _ k m h.sorted, ?_, ?_, ?_⟩
  · intro e he
    rw [List.filter_append, List.map_append]
    rcases (hmem e).1 he with ⟨he', hne⟩ | ⟨d, hd, heq, rfl⟩ | ⟨hnone, rfl⟩
    · simp [← h.value e he', Ne.symm hne]
    · have hvalue := h.value d hd
      rw [heq] at hvalue
      simp [heq, hvalue]
    · have hempty : (items.filter fun c => decide (rank c = rank k)) = [] := by
        rw [List.filter_eq_nil_iff]
        intro c hc hrank
        obtain ⟨e, he, heq⟩ := h.covered c hc
        exact hnone e he (heq.trans (of_decide_eq_true hrank))
      simp [hempty]
  · intro e he
    rcases (hmem e).1 he with ⟨he', _⟩ | ⟨d, hd, _, rfl⟩ | ⟨_, rfl⟩
    · exact List.mem_append_left _ (h.key e he')
    · exact List.mem_append_left _ (h.key d hd)
    · simp
  · intro c hc
    have hk : ∃ e ∈ alter lt [] (fun vs => vs ++ [tag k]) k m, rank e.1 = rank k := by
      by_cases hnone : ∀ d ∈ m, rank d.1 ≠ rank k
      · exact ⟨_, (hmem _).2 (Or.inr (Or.inr ⟨hnone, rfl⟩)), rfl⟩
      · push Not at hnone
        obtain ⟨d, hd, heq⟩ := hnone
        exact ⟨_, (hmem _).2 (Or.inr (Or.inl ⟨d, hd, heq, rfl⟩)), heq⟩
    by_cases hrank : rank c = rank k
    · rw [hrank]
      exact hk
    · have hold : c ∈ items := by
        rcases List.mem_append.1 hc with hc' | hc'
        · exact hc'
        · exact absurd (congrArg rank (List.mem_singleton.1 hc')) hrank
      obtain ⟨e, he, heq⟩ := h.covered c hold
      exact ⟨e, (hmem e).2 (Or.inl ⟨he, heq ▸ hrank⟩), heq⟩

/-- With different tags, an item is in the entry of its rank and in no other. -/
theorem Groups.tag_mem_iff (tag : K → V) (items : List K) (m : List (K × List V))
    (h : Groups rank tag items m) (htags : (items.map tag).Nodup) (k : K) (hk : k ∈ items)
    (e : K × List V) (he : e ∈ m) : tag k ∈ e.2 ↔ rank k = rank e.1 := by
  rw [h.value e he]
  simp only [List.mem_map, List.mem_filter, decide_eq_true_eq]
  constructor
  · intro h
    obtain ⟨d, ⟨hd, hrank⟩, htag⟩ := h
    rwa [List.inj_on_of_nodup_map htags hd hk htag] at hrank
  · intro hrank
    exact ⟨k, ⟨hk, hrank⟩, rfl⟩

/-- With different tags, two items share an entry if and only if they have one rank. -/
theorem Groups.together_iff (tag : K → V) (items : List K) (m : List (K × List V))
    (h : Groups rank tag items m) (htags : (items.map tag).Nodup) (a b : K) (ha : a ∈ items)
    (hb : b ∈ items) :
    (∃ e ∈ m, tag a ∈ e.2 ∧ tag b ∈ e.2) ↔ rank a = rank b := by
  have hin := h.tag_mem_iff tag items m htags
  constructor
  · intro h
    obtain ⟨e, he, hae, hbe⟩ := h
    exact ((hin a ha e he).1 hae).trans ((hin b hb e he).1 hbe).symm
  · intro hrank
    obtain ⟨e, he, heq⟩ := h.covered a ha
    exact ⟨e, he, (hin a ha e he).2 heq.symm, (hin b hb e he).2 (heq.trans hrank).symm⟩

end JvmTrace.OrderedMaps
