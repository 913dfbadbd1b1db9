import Mathlib
import JvmTrace.Runs

/-!
A place where senders and receivers meet. A meeting is one step: an item that is offered
goes to one who asks, and nothing else moves. The sender learns of it later, and until
then there is no other meeting. Who has not met may withdraw, and after the place is shut
nobody meets. So the acknowledged offers are the first senders of the meetings, in order.
Nothing here names a program.
-/
namespace JvmTrace.Rendezvous

open Runs

inductive Place (V : Type*)
  | outside
  | offering (item : V)
  | served (item : V)
  | asking

def Place.isServed {V : Type*} : Place V → Bool
  | served _ => true
  | _ => false

structure Meeting (T V : Type*) where
  sender : T
  receiver : T
  item : V

def Meeting.sent {T V : Type*} (x : Meeting T V) : T × V := (x.sender, x.item)

def Meeting.got {T V : Type*} (x : Meeting T V) : T × V := (x.receiver, x.item)

structure Hall (T V : Type*) where
  shut : Bool
  place : T → Place V
  meetings : List (Meeting T V)
  acknowledged : List (T × V)

inductive Act (T V : Type*)
  | offer (t : T) (item : V)
  | ask (t : T)
  | meet (sender receiver : T)
  | withdraw (t : T)
  | acknowledge (t : T)
  | shut

variable {T V : Type*}

def empty : Hall T V where
  shut := false
  place := fun _ => .outside
  meetings := []
  acknowledged := []

variable [DecidableEq T]

def Hall.move (h : Hall T V) (t : T) (p : Place V) : Hall T V :=
  { h with place := Function.update h.place t p }

variable [Fintype T]

def step (h : Hall T V) (a : Act T V) : Option (Hall T V) :=
  match a with
  | .offer t item =>
    match h.place t with
    | .outside => some (h.move t (.offering item))
    | _ => none
  | .ask t =>
    match h.place t with
    | .outside => some (h.move t .asking)
    | _ => none
  | .meet t u =>
    if h.shut = false ∧ ∀ v, (h.place v).isServed = false then
      match h.place t, h.place u with
      | .offering item, .asking =>
        some { (h.move u .outside).move t (.served item) with
          meetings := h.meetings ++ [⟨t, u, item⟩] }
      | _, _ => none
    else none
  | .withdraw t =>
    match h.place t with
    | .offering _ => some (h.move t .outside)
    | .asking => some (h.move t .outside)
    | _ => none
  | .acknowledge t =>
    match h.place t with
    | .served item => some { h.move t .outside with acknowledged := h.acknowledged ++ [(t, item)] }
    | _ => none
  | .shut => if h.shut then none else some { h with shut := true }

/-- The senders of the meetings are those of the acknowledged offers, and last the one who
has not learnt of its meeting yet. -/
structure Accounted (h : Hall T V) : Prop where
  served : ∀ t item, h.place t = .served item →
    h.meetings.map Meeting.sent = h.acknowledged ++ [(t, item)]
  none_served : (∀ t, (h.place t).isServed = false) → h.meetings.map Meeting.sent = h.acknowledged

omit [DecidableEq T] [Fintype T] in
theorem Place.eq_served (p : Place V) (h : p.isServed = true) : ∃ item, p = .served item := by
  cases p with
  | served item => exact ⟨item, rfl⟩
  | _ => cases h

omit [Fintype T] in
theorem move_place (h : Hall T V) (t u : T) (p : Place V) :
    (h.move t p).place u = if u = t then p else h.place u := by
  simp [Hall.move, Function.update_apply]

omit [Fintype T] in
/-- One who was not served moves, and is not served either. -/
theorem Accounted.move {h : Hall T V} (hacc : Accounted h) (t : T) (p : Place V)
    (ht : (h.place t).isServed = false) (hp : p.isServed = false) : Accounted (h.move t p) where
  served u item hu := by
    rw [move_place] at hu
    split_ifs at hu
    · rw [hu] at hp
      cases hp
    · exact hacc.served u item hu
  none_served hnone := by
    refine hacc.none_served fun u => ?_
    have hu := hnone u
    rw [move_place] at hu
    split_ifs at hu with hut
    · rw [hut]
      exact ht
    · exact hu

omit [Fintype T] in
theorem Accounted.meet {h : Hall T V} (hacc : Accounted h) (t u : T) (item : V)
    (hnone : ∀ v, (h.place v).isServed = false) :
    Accounted { (h.move u .outside).move t (.served item) with
      meetings := h.meetings ++ [⟨t, u, item⟩] } where
  served v item' hv := by
    have hmeetings := hacc.none_served hnone
    have hplace : (if v = t then .served item else (h.move u .outside).place v) = .served item' :=
      (move_place (h.move u .outside) t v (.served item)).symm.trans hv
    split_ifs at hplace with hvt
    · obtain rfl := Place.served.inj hplace
      rw [List.map_append, hmeetings, hvt]
      rfl
    · rw [move_place] at hplace
      split_ifs at hplace
      have hserved := hnone v
      rw [hplace] at hserved
      cases hserved
  none_served hnot := by
    have ht := hnot t
    simp [Hall.move, Place.isServed] at ht

omit [Fintype T] in
theorem Accounted.acknowledge {h : Hall T V} (hacc : Accounted h) (t : T) (item : V)
    (ht : h.place t = .served item) :
    Accounted { h.move t .outside with acknowledged := h.acknowledged ++ [(t, item)] } where
  served u item' hu := by
    have hplace : (if u = t then .outside else h.place u) = .served item' :=
      (move_place h t u .outside).symm.trans hu
    split_ifs at hplace with hut
    -- two at once would both be the last of the meetings
    have hlast := (hacc.served u item' hplace).symm.trans (hacc.served t item ht)
    have hpair := List.append_cancel_left hlast
    simp only [List.cons.injEq, Prod.mk.injEq, and_true] at hpair
    exact absurd hpair.1 hut
  none_served _ := hacc.served t item ht

theorem accounted_step (h : Hall T V) (a : Act T V) (h' : Hall T V) (hstep : step h a = some h')
    (hacc : Accounted h) : Accounted h' := by
  cases a with
  | offer t item =>
    simp only [step] at hstep
    split at hstep
    · obtain rfl := Option.some.inj hstep
      exact hacc.move t _ (by simp [*, Place.isServed]) rfl
    · cases hstep
  | ask t =>
    simp only [step] at hstep
    split at hstep
    · obtain rfl := Option.some.inj hstep
      exact hacc.move t _ (by simp [*, Place.isServed]) rfl
    · cases hstep
  | meet t u =>
    simp only [step] at hstep
    split_ifs at hstep with hguard
    split at hstep
    · obtain rfl := Option.some.inj hstep
      exact hacc.meet t u _ hguard.2
    · cases hstep
  | withdraw t =>
    simp only [step] at hstep
    split at hstep
    · obtain rfl := Option.some.inj hstep
      exact hacc.move t _ (by simp [*, Place.isServed]) rfl
    · obtain rfl := Option.some.inj hstep
      exact hacc.move t _ (by simp [*, Place.isServed]) rfl
    · cases hstep
  | acknowledge t =>
    simp only [step] at hstep
    split at hstep
    · obtain rfl := Option.some.inj hstep
      exact hacc.acknowledge t _ ‹_›
    · cases hstep
  | shut =>
    simp only [step] at hstep
    split_ifs at hstep
    obtain rfl := Option.some.inj hstep
    exact ⟨hacc.served, hacc.none_served⟩

theorem accounted_reachable (h : Hall T V) (hreach : Reachable step empty h) : Accounted h := by
  refine reachable_invariant accounted_step hreach ⟨?_, fun _ => rfl⟩
  intro t item ht
  cases ht

end JvmTrace.Rendezvous
