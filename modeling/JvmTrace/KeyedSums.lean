import Mathlib

/-!
Sums over association lists with distinct keys, and the insertion that keeps
an existing binding. Entering a fresh key adds its weight to the sum and
erasing a bound key removes the weight that was bound there.
-/
namespace JvmTrace.KeyedSums

variable {α β : Type*} [DecidableEq α]

def total (weight : β → ℕ) (m : AList fun _ : α => β) : ℕ :=
  (m.entries.map fun e => weight e.2).sum

/-- Bind a fresh key; a key that is already bound keeps its old value. -/
def insertNew (a : α) (b : β) (m : AList fun _ : α => β) : AList fun _ : α => β :=
  if a ∈ m then m else m.insert a b

theorem total_insert (weight : β → ℕ) (m : AList fun _ : α => β) (a : α) (b : β)
    (h : a ∉ m) : total weight (m.insert a b) = weight b + total weight m := by
  unfold total
  rw [AList.entries_insert_of_notMem h]
  rfl

theorem total_erase (weight : β → ℕ) (m : AList fun _ : α => β) (a : α) (b : β)
    (h : m.lookup a = some b) : total weight (m.erase a) + weight b = total weight m := by
  have hmem : a ∈ m := by
    rw [← AList.lookup_isSome, h]
    rfl
  obtain ⟨c, left, right, hleft, heq, herase⟩ := List.exists_of_kerase (AList.mem_keys.mp hmem)
  have hc : c = b := by
    have hlook : m.entries.dlookup a = some b := h
    have hin : (⟨a, c⟩ : Sigma fun _ : α => β) ∈ m.entries := by
      rw [heq]
      simp
    have hc' : m.entries.dlookup a = some c := (List.mem_dlookup_iff m.nodupKeys).mpr hin
    exact Option.some.inj (hc'.symm.trans hlook)
  subst c
  have hentries : (m.erase a).entries = left ++ right := herase
  simp only [total, hentries, heq, List.map_append, List.map_cons, List.sum_append,
    List.sum_cons]
  omega

theorem erase_of_notMem (m : AList fun _ : α => β) (a : α) (h : a ∉ m) : m.erase a = m := by
  apply AList.ext
  exact List.kerase_of_notMem_keys h

theorem lookup_insertNew (a c : α) (b : β) (m : AList fun _ : α => β) :
    (insertNew a b m).lookup c = if c = a ∧ a ∉ m then some b else m.lookup c := by
  unfold insertNew
  by_cases ha : a ∈ m
  · simp [ha]
  · by_cases hc : c = a
    · subst c
      simp [ha]
    · simp [ha, hc, AList.lookup_insert_ne]

end JvmTrace.KeyedSums
