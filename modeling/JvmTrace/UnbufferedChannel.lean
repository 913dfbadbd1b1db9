import JvmTrace.Runs
import Mathlib

/-!
The channel of src/ts/common/unbuffered_channel.h, in which a writer hands its value to
one reader. Every member is used under m_ only, so a critical section, from taking m_ to
giving it up in a wait or on return, is one step; the notifications of Close come after
it. A wait may end by a notification, by itself or at its deadline. A failed check ends
the process. The values handed over are recorded beside the members.
-/
namespace JvmTrace.UnbufferedChannel

open Runs

/-- What ends the process: the two FATAL checks, the DCHECKs, and reading *item_ after
the writer it points to has left. -/
inductive Fault
  | writeToClosed
  | closeTwice
  | dcheck
  | dangling
  deriving DecidableEq

/-- How a thread comes to test the predicate of a wait. -/
inductive Arrival
  | fresh
  | notified
  | expired
  deriving DecidableEq

inductive Op (V : Type*)
  | write (item : V)
  | read
  | close

/-- Where a thread is: about to take m_, or blocked on one of the three conditions. -/
inductive Pc (V : Type*)
  | idle
  | writing (item : V) (arrival : Arrival)
  | awaitTurn (item : V)
  | handing (item : V) (arrival : Arrival)
  | awaitReader (item : V)
  | reading (arrival : Arrival)
  | awaitWriter
  | closing
  | wakingWriters
  | wakingReaders
  | wakingHandshake

namespace Pc

variable {V : Type*}

/-- Blocked on writers_, on readers_ and on handshake_. -/
def onWriters : Pc V → Bool
  | awaitTurn _ => true
  | _ => false

def onReaders : Pc V → Bool
  | awaitWriter => true
  | _ => false

def onHandshake : Pc V → Bool
  | awaitReader _ => true
  | _ => false

/-- Out of a wait, on the way back to m_. -/
def woken (arrival : Arrival) : Pc V → Pc V
  | awaitTurn item => writing item arrival
  | awaitReader item => handing item arrival
  | awaitWriter => reading arrival
  | p => p

/-- The argument of a Write in progress. -/
def item? : Pc V → Option V
  | writing item _ => some item
  | awaitTurn item => some item
  | handing item _ => some item
  | awaitReader item => some item
  | _ => none

/-- Between entering the handshake zone and leaving it. -/
def inZone : Pc V → Bool
  | handing _ _ => true
  | awaitReader _ => true
  | _ => false

end Pc

/-- The members, where the threads are, and what Write and Read have returned: delivered
are the writes that did not time out, received the values that were read. -/
structure State (T V : Type*) where
  closed_ : Bool
  writter_in_zone_ : Bool
  reader_in_zone_ : Bool
  item_ : Option T
  pc : T → Pc V
  fault : Option Fault
  delivered : List (T × V)
  received : List (T × V)

inductive Act (T V : Type*)
  | call (t : T) (op : Op V)
  | wake (t : T) (arrival : Arrival)
  | late (t : T)
  | lock (t : T) (choice : Option T)

variable {T V : Type*} [Fintype T] [DecidableEq T]

namespace State

def goto (s : State T V) (t : T) (p : Pc V) : State T V :=
  { s with pc := Function.update s.pc t p }

def fail (s : State T V) (f : Fault) : State T V := { s with fault := some f }

/-- One of the threads on the condition is woken, or there is none. -/
def notifyOne (s : State T V) (waits : Pc V → Bool) : Option T → Option (State T V)
  | none => if ∀ u, waits (s.pc u) = false then some s else none
  | some u => if waits (s.pc u) then some (s.goto u ((s.pc u).woken .notified)) else none

def notifyAll (s : State T V) (waits : Pc V → Bool) : State T V :=
  { s with pc := fun u => if waits (s.pc u) then (s.pc u).woken .notified else s.pc u }

/-- Write, from the test of the predicate of writers_ on. Behind the zone's entry the
predicate of handshake_ is tested before the wait. -/
def write (s : State T V) (t : T) (item : V) (arrival : Arrival) (choice : Option T) :
    Option (State T V) :=
  if s.closed_ || !s.writter_in_zone_ then
    if s.closed_ then some (s.fail .writeToClosed)
    else
      ({ s with writter_in_zone_ := true, item_ := some t }.notifyOne Pc.onReaders choice).map
        fun s : State T V =>
          s.goto t (if s.reader_in_zone_ then .handing item .fresh else .awaitReader item)
  else if arrival = .expired then some (s.goto t .idle)
  else some (s.goto t (.awaitTurn item))

/-- Write, from the test of the predicate of handshake_ on. -/
def hand (s : State T V) (t : T) (item : V) (arrival : Arrival) (choice : Option T) :
    Option (State T V) :=
  if s.closed_ || s.reader_in_zone_ then
    if !s.reader_in_zone_ && s.closed_ then some (s.fail .writeToClosed)
    else
      ({ s with
          writter_in_zone_ := false
          reader_in_zone_ := false
          delivered := s.delivered ++ [(t, item)] }.goto t .idle).notifyOne Pc.onWriters choice
  else if arrival = .expired then
    ({ s with writter_in_zone_ := false }.goto t .idle).notifyOne Pc.onWriters choice
  else some (s.goto t (.awaitReader item))

/-- Read, from the test of the predicate of readers_ on. -/
def read (s : State T V) (t : T) (arrival : Arrival) (choice : Option T) : Option (State T V) :=
  if s.closed_ || (!s.reader_in_zone_ && s.writter_in_zone_) then
    if s.closed_ then some (s.goto t .idle)
    else if !s.writter_in_zone_ then some (s.fail .dcheck)
    else
      match s.item_.bind fun w => (s.pc w).item? with
      | none => some (s.fail .dangling)
      | some item =>
        ({ s with
            reader_in_zone_ := true
            received := s.received ++ [(t, item)] }.goto t .idle).notifyOne Pc.onHandshake choice
  else if arrival = .expired then
    if s.closed_ then some (s.fail .dcheck) else some (s.goto t .idle)
  else some (s.goto t .awaitWriter)

/-- Close, up to its first notification. -/
def close (s : State T V) (t : T) : State T V :=
  if s.closed_ then s.fail .closeTwice else { s with closed_ := true }.goto t .wakingWriters

end State

def enter : Op V → Pc V
  | .write item => .writing item .fresh
  | .read => .reading .fresh
  | .close => .closing

open State

/-- A lock action stands for the next critical section of the thread, or for its next
notification outside of one. -/
def step (s : State T V) (a : Act T V) : Option (State T V) :=
  if s.fault = none then
    match a with
    | .call t op =>
      match s.pc t with
      | .idle => some (s.goto t (enter op))
      | _ => none
    | .wake t arrival =>
      if (s.pc t).onWriters || (s.pc t).onReaders || (s.pc t).onHandshake then
        if arrival = .fresh then none else some (s.goto t ((s.pc t).woken arrival))
      else none
    | .late t =>
      match s.pc t with
      | .writing item .notified => some (s.goto t (.writing item .expired))
      | .handing item .notified => some (s.goto t (.handing item .expired))
      | .reading .notified => some (s.goto t (.reading .expired))
      | _ => none
    | .lock t choice =>
      match s.pc t with
      | .writing item arrival => s.write t item arrival choice
      | .handing item arrival => s.hand t item arrival choice
      | .reading arrival => s.read t arrival choice
      | .closing => some (s.close t)
      | .wakingWriters => some ((s.notifyAll Pc.onWriters).goto t .wakingReaders)
      | .wakingReaders => some ((s.notifyAll Pc.onReaders).goto t .wakingHandshake)
      | .wakingHandshake => (s.goto t .idle).notifyOne Pc.onHandshake choice
      | _ => none
  else none

omit [Fintype T] [DecidableEq T] in
def init : State T V where
  closed_ := false
  writter_in_zone_ := false
  reader_in_zone_ := false
  item_ := none
  pc := fun _ => .idle
  fault := none
  delivered := []
  received := []

/-- What each step can do, with the guards it had to pass. -/
inductive Move (s : State T V) : Act T V → State T V → Prop
  | call (t : T) (op : Op V) (hpc : s.pc t = .idle) : Move s (.call t op) (s.goto t (enter op))
  | wake (t : T) (arrival : Arrival) (hne : arrival ≠ .fresh)
      (hwaits : (s.pc t).onWriters = true ∨ (s.pc t).onReaders = true ∨
        (s.pc t).onHandshake = true) :
      Move s (.wake t arrival) (s.goto t ((s.pc t).woken arrival))
  | lateWrite (t : T) (item : V) (hpc : s.pc t = .writing item .notified) :
      Move s (.late t) (s.goto t (.writing item .expired))
  | lateHand (t : T) (item : V) (hpc : s.pc t = .handing item .notified) :
      Move s (.late t) (s.goto t (.handing item .expired))
  | lateRead (t : T) (hpc : s.pc t = .reading .notified) :
      Move s (.late t) (s.goto t (.reading .expired))
  | writeClosed (t : T) (choice : Option T) (item : V) (arrival : Arrival)
      (hpc : s.pc t = .writing item arrival) (hclosed : s.closed_ = true) :
      Move s (.lock t choice) (s.fail .writeToClosed)
  | enterZone (t : T) (choice : Option T) (item : V) (arrival : Arrival) (s' : State T V)
      (hpc : s.pc t = .writing item arrival) (hopen : s.closed_ = false)
      (hfree : s.writter_in_zone_ = false)
      (hnotify : ({ s with writter_in_zone_ := true, item_ := some t }.notifyOne
        Pc.onReaders choice) = some s') :
      Move s (.lock t choice)
        (s'.goto t (if s'.reader_in_zone_ then .handing item .fresh else .awaitReader item))
  | writeLapse (t : T) (choice : Option T) (item : V) (hpc : s.pc t = .writing item .expired)
      (hopen : s.closed_ = false) (hbusy : s.writter_in_zone_ = true) :
      Move s (.lock t choice) (s.goto t .idle)
  | writeWait (t : T) (choice : Option T) (item : V) (arrival : Arrival)
      (hpc : s.pc t = .writing item arrival) (hopen : s.closed_ = false)
      (hbusy : s.writter_in_zone_ = true) :
      Move s (.lock t choice) (s.goto t (.awaitTurn item))
  | handClosed (t : T) (choice : Option T) (item : V) (arrival : Arrival)
      (hpc : s.pc t = .handing item arrival) (hclosed : s.closed_ = true)
      (hunread : s.reader_in_zone_ = false) :
      Move s (.lock t choice) (s.fail .writeToClosed)
  | handDone (t : T) (choice : Option T) (item : V) (arrival : Arrival) (s' : State T V)
      (hpc : s.pc t = .handing item arrival) (hread : s.reader_in_zone_ = true)
      (hnotify : ({ s with
          writter_in_zone_ := false
          reader_in_zone_ := false
          delivered := s.delivered ++ [(t, item)] }.goto t .idle).notifyOne Pc.onWriters choice =
        some s') :
      Move s (.lock t choice) s'
  | handLapse (t : T) (choice : Option T) (item : V) (s' : State T V)
      (hpc : s.pc t = .handing item .expired) (hopen : s.closed_ = false)
      (hunread : s.reader_in_zone_ = false)
      (hnotify : ({ s with writter_in_zone_ := false }.goto t .idle).notifyOne Pc.onWriters choice =
        some s') :
      Move s (.lock t choice) s'
  | handWait (t : T) (choice : Option T) (item : V) (arrival : Arrival)
      (hpc : s.pc t = .handing item arrival) (hopen : s.closed_ = false)
      (hunread : s.reader_in_zone_ = false) :
      Move s (.lock t choice) (s.goto t (.awaitReader item))
  | readClosed (t : T) (choice : Option T) (arrival : Arrival) (hpc : s.pc t = .reading arrival)
      (hclosed : s.closed_ = true) :
      Move s (.lock t choice) (s.goto t .idle)
  | readDangling (t : T) (choice : Option T) (arrival : Arrival) (hpc : s.pc t = .reading arrival)
      (hopen : s.closed_ = false) (hunread : s.reader_in_zone_ = false)
      (hbusy : s.writter_in_zone_ = true)
      (hitem : (s.item_.bind fun w => (s.pc w).item?) = none) :
      Move s (.lock t choice) (s.fail .dangling)
  | readTake (t : T) (choice : Option T) (arrival : Arrival) (item : V) (s' : State T V)
      (hpc : s.pc t = .reading arrival) (hopen : s.closed_ = false)
      (hunread : s.reader_in_zone_ = false) (hbusy : s.writter_in_zone_ = true)
      (hitem : (s.item_.bind fun w => (s.pc w).item?) = some item)
      (hnotify : ({ s with
          reader_in_zone_ := true
          received := s.received ++ [(t, item)] }.goto t .idle).notifyOne Pc.onHandshake choice =
        some s') :
      Move s (.lock t choice) s'
  | readLapse (t : T) (choice : Option T) (hpc : s.pc t = .reading .expired)
      (hopen : s.closed_ = false)
      (hnone : ¬ (s.reader_in_zone_ = false ∧ s.writter_in_zone_ = true)) :
      Move s (.lock t choice) (s.goto t .idle)
  | readWait (t : T) (choice : Option T) (arrival : Arrival) (hpc : s.pc t = .reading arrival)
      (hopen : s.closed_ = false)
      (hnone : ¬ (s.reader_in_zone_ = false ∧ s.writter_in_zone_ = true)) :
      Move s (.lock t choice) (s.goto t .awaitWriter)
  | closeTwice (t : T) (choice : Option T) (hpc : s.pc t = .closing) (hclosed : s.closed_ = true) :
      Move s (.lock t choice) (s.fail .closeTwice)
  | closeDone (t : T) (choice : Option T) (hpc : s.pc t = .closing) (hopen : s.closed_ = false) :
      Move s (.lock t choice) ({ s with closed_ := true }.goto t .wakingWriters)
  | wakeWriters (t : T) (choice : Option T) (hpc : s.pc t = .wakingWriters) :
      Move s (.lock t choice) ((s.notifyAll Pc.onWriters).goto t .wakingReaders)
  | wakeReaders (t : T) (choice : Option T) (hpc : s.pc t = .wakingReaders) :
      Move s (.lock t choice) ((s.notifyAll Pc.onReaders).goto t .wakingHandshake)
  | wakeHandshake (t : T) (choice : Option T) (s' : State T V) (hpc : s.pc t = .wakingHandshake)
      (hnotify : (s.goto t .idle).notifyOne Pc.onHandshake choice = some s') :
      Move s (.lock t choice) s'

theorem write_move (s s' : State T V) (t : T) (item : V) (arrival : Arrival) (choice : Option T)
    (hpc : s.pc t = .writing item arrival) (h : s.write t item arrival choice = some s') :
    Move s (.lock t choice) s' := by
  unfold State.write at h
  split_ifs at h with hpred hclosed hexpired
  · obtain rfl := Option.some.inj h
    exact Move.writeClosed t choice item arrival hpc hclosed
  · obtain ⟨s₁, hnotify, rfl⟩ := Option.map_eq_some_iff.1 h
    have hopen : s.closed_ = false := by simpa using hclosed
    have hfree : s.writter_in_zone_ = false := by simpa [hopen] using hpred
    exact Move.enterZone t choice item arrival s₁ hpc hopen hfree hnotify
  · obtain rfl := Option.some.inj h
    simp only [Bool.or_eq_true, Bool.not_eq_true', not_or, Bool.not_eq_true,
      Bool.not_eq_false] at hpred
    rw [hexpired] at hpc
    exact Move.writeLapse t choice item hpc hpred.1 hpred.2
  · obtain rfl := Option.some.inj h
    simp only [Bool.or_eq_true, Bool.not_eq_true', not_or, Bool.not_eq_true,
      Bool.not_eq_false] at hpred
    exact Move.writeWait t choice item arrival hpc hpred.1 hpred.2

theorem hand_move (s s' : State T V) (t : T) (item : V) (arrival : Arrival) (choice : Option T)
    (hpc : s.pc t = .handing item arrival) (h : s.hand t item arrival choice = some s') :
    Move s (.lock t choice) s' := by
  unfold State.hand at h
  split_ifs at h with hpred hfatal hexpired
  · obtain rfl := Option.some.inj h
    simp only [Bool.and_eq_true, Bool.not_eq_true'] at hfatal
    exact Move.handClosed t choice item arrival hpc hfatal.2 hfatal.1
  · have hread : s.reader_in_zone_ = true := by
      simp only [Bool.or_eq_true, Bool.and_eq_true, Bool.not_eq_true', not_and,
        Bool.not_eq_true] at hpred hfatal
      by_contra hunread
      simp only [Bool.not_eq_true] at hunread
      simp [hunread, hfatal hunread] at hpred
    exact Move.handDone t choice item arrival s' hpc hread h
  · simp only [Bool.or_eq_true, not_or, Bool.not_eq_true] at hpred
    rw [hexpired] at hpc
    exact Move.handLapse t choice item s' hpc hpred.1 hpred.2 h
  · obtain rfl := Option.some.inj h
    simp only [Bool.or_eq_true, not_or, Bool.not_eq_true] at hpred
    exact Move.handWait t choice item arrival hpc hpred.1 hpred.2

theorem read_move (s s' : State T V) (t : T) (arrival : Arrival) (choice : Option T)
    (hpc : s.pc t = .reading arrival) (h : s.read t arrival choice = some s') :
    Move s (.lock t choice) s' := by
  unfold State.read at h
  split_ifs at h with hpred hclosed hfree hexpired hclosed
  · obtain rfl := Option.some.inj h
    exact Move.readClosed t choice arrival hpc hclosed
  · simp only [Bool.not_eq_true, Bool.not_eq_true'] at hclosed hfree
    simp [hclosed, hfree] at hpred
  · simp only [Bool.not_eq_true, Bool.not_eq_true', Bool.not_eq_false] at hclosed hfree
    have hunread : s.reader_in_zone_ = false := by simpa [hclosed, hfree] using hpred
    rcases hitem : (s.item_.bind fun w => (s.pc w).item?) with _ | item
    · rw [hitem] at h
      obtain rfl := Option.some.inj h
      exact Move.readDangling t choice arrival hpc hclosed hunread hfree hitem
    · rw [hitem] at h
      exact Move.readTake t choice arrival item s' hpc hclosed hunread hfree hitem h
  · simp [hclosed] at hpred
  · obtain rfl := Option.some.inj h
    rw [hexpired] at hpc
    exact Move.readLapse t choice hpc (by simpa using hclosed) fun hboth => by
      simp [hboth.1, hboth.2] at hpred
  · obtain rfl := Option.some.inj h
    simp only [Bool.or_eq_true, not_or, Bool.not_eq_true] at hpred
    exact Move.readWait t choice arrival hpc hpred.1 fun hboth => by
      simp [hboth.1, hboth.2] at hpred

theorem step_move (s s' : State T V) (a : Act T V) (h : step s a = some s') : Move s a s' := by
  unfold step at h
  split_ifs at h with hfault
  cases a with
  | call t op =>
    rcases hpc : s.pc t <;> simp only [hpc, reduceCtorEq] at h
    obtain rfl := Option.some.inj h
    exact Move.call t op hpc
  | wake t arrival =>
    dsimp only at h
    split_ifs at h with hwaits hfresh
    obtain rfl := Option.some.inj h
    exact Move.wake t arrival hfresh (by simpa [or_assoc] using hwaits)
  | late t =>
    dsimp only at h
    split at h
    · obtain rfl := Option.some.inj h
      exact Move.lateWrite t _ ‹_›
    · obtain rfl := Option.some.inj h
      exact Move.lateHand t _ ‹_›
    · obtain rfl := Option.some.inj h
      exact Move.lateRead t ‹_›
    · simp at h
  | lock t choice =>
    dsimp only at h
    rcases hpc : s.pc t with
      _ | ⟨item, arrival⟩ | _ | ⟨item, arrival⟩ | _ | arrival | _ | _ | _ | _ | _ <;>
      simp only [hpc, reduceCtorEq] at h
    · exact write_move s s' t item arrival choice hpc h
    · exact hand_move s s' t item arrival choice hpc h
    · exact read_move s s' t arrival choice hpc h
    · obtain rfl := Option.some.inj h
      unfold State.close
      split_ifs with hclosed
      · exact Move.closeTwice t choice hpc hclosed
      · exact Move.closeDone t choice hpc (by simpa using hclosed)
    · obtain rfl := Option.some.inj h
      exact Move.wakeWriters t choice hpc
    · obtain rfl := Option.some.inj h
      exact Move.wakeReaders t choice hpc
    · exact Move.wakeHandshake t choice s' hpc h

end JvmTrace.UnbufferedChannel
