import JvmTrace.Runs
import Mathlib.Data.Nat.Notation
import Mathlib.Data.List.Nodup
import Mathlib.Logic.Function.Basic

/-!
The stack trace server of src/ts/signal_handler.cc and the processes that can
write to its request pipe: the one that started it and those forked from it. A
request is a bare descriptor number, meant in the sender's table and closed by
RequestProcessor in its own. Descriptors carry the number of the ExternalHandler
call that opened them, so that a closed number can be compared with the request
it was read from. The signal handler checks the thread group, backtrace does not.
-/
namespace JvmTrace.StackTraceServer

open Runs

/-- What a descriptor refers to. -/
inductive Descriptor
  | other
  | requestRead
  | requestWrite
  | readEnd (call : ℕ)
  | ack (call : ℕ)
  deriving DecidableEq

abbrev Table := ℕ → Option Descriptor

/-- Where a call of ExternalHandler is, with the descriptors it still handles. -/
inductive Stage
  | entered
  | opened (r w : ℕ)
  | sending (w : ℕ)
  | failed (w : ℕ)

structure Call (P : Type*) where
  proc : P
  stage : Stage

/-- The number on the pipe; its sender and the call it stems from are not sent. -/
structure Request (P : Type*) where
  ack_fd : ℕ
  origin : P
  call : ℕ

/-- A close by RequestProcessor with what the number referred to in its table. -/
structure Closure (P : Type*) where
  request : Request P
  found : Option Descriptor

/-- The static state every forked process inherits, and the end the server reads. -/
structure ExternalHandlerState (P : Type*) where
  server_tgid : P
  server_fd : ℕ
  read_fd : ℕ

structure State (P : Type*) where
  procs : P → Option Table
  calls : ℕ → Option (Call P)
  next : ℕ
  pipe : List (Request P)
  serving : Option (Request P)
  closed : List (Closure P)

inductive Act (P : Type*)
  | fork (parent child : P)
  | exit (p : P)
  | openOther (p : P) (fd : ℕ)
  | closeOther (p : P) (fd : ℕ)
  | externalSignal (p : P)
  | backtrace (p : P)
  | pipe (call r w : ℕ)
  | pipeFails (call : ℕ)
  | closeRead (call : ℕ)
  | write (call : ℕ) (accepted : Bool)
  | closeAck (call : ℕ)
  | read
  | closeRequest

variable {P : Type*} [DecidableEq P]

namespace State

def setTable (s : State P) (p : P) (table : Table) : State P :=
  { s with procs := Function.update s.procs p (some table) }

omit [DecidableEq P] in
def setCall (s : State P) (call : ℕ) (c : Option (Call P)) : State P :=
  { s with calls := Function.update s.calls call c }

omit [DecidableEq P] in
/-- Entry into ExternalHandler. -/
def enter (s : State P) (p : P) : State P :=
  { s.setCall s.next (some ⟨p, .entered⟩) with next := s.next + 1 }

end State

def step (srv : ExternalHandlerState P) (s : State P) : Act P → Option (State P)
  | .fork parent child =>
      match s.procs parent, s.procs child with
      | some table, none => some (s.setTable child table)
      | _, _ => none
  | .exit p =>
      if p = srv.server_tgid then none
      else some { s with
        procs := Function.update s.procs p none
        calls := fun call => (s.calls call).filter fun c => c.proc ≠ p }
  | .openOther p fd =>
      (s.procs p).bind fun table =>
        if table fd = none then some (s.setTable p (Function.update table fd (some .other))) else none
  | .closeOther p fd =>
      (s.procs p).bind fun table =>
        if table fd = some .other ∨ p ≠ srv.server_tgid then
          some (s.setTable p (Function.update table fd none))
        else none
  | .externalSignal p =>
      (s.procs p).map fun _ => if srv.server_tgid ≠ p then s else s.enter p
  | .backtrace p => (s.procs p).map fun _ => s.enter p
  | .pipe call r w =>
      match s.calls call with
      | some ⟨p, .entered⟩ =>
          (s.procs p).bind fun table =>
            if table r = none ∧ table w = none ∧ r ≠ w then
              some ((s.setTable p (Function.update (Function.update table r (some (.readEnd call))) w
                (some (.ack call)))).setCall call (some ⟨p, .opened r w⟩))
            else none
      | _ => none
  | .pipeFails call =>
      match s.calls call with
      | some ⟨_, .entered⟩ => some (s.setCall call none)
      | _ => none
  | .closeRead call =>
      match s.calls call with
      | some ⟨p, .opened r w⟩ =>
          (s.procs p).map fun table =>
            (s.setTable p (Function.update table r none)).setCall call (some ⟨p, .sending w⟩)
      | _ => none
  | .write call accepted =>
      match s.calls call with
      | some ⟨p, .sending w⟩ =>
          (s.procs p).bind fun table =>
            match accepted, table srv.server_fd with
            | false, _ => some (s.setCall call (some ⟨p, .failed w⟩))
            | true, some .requestWrite =>
                some { s.setCall call none with pipe := s.pipe ++ [⟨w, p, call⟩] }
            | true, some _ => some (s.setCall call none)
            | true, none => none
      | _ => none
  | .closeAck call =>
      match s.calls call with
      | some ⟨p, .failed w⟩ =>
          (s.procs p).map fun table =>
            (s.setTable p (Function.update table w none)).setCall call none
      | _ => none
  | .read =>
      match s.serving, s.pipe, s.procs srv.server_tgid with
      | none, request :: rest, some table =>
          if table srv.read_fd = some .requestRead then
            some { s with serving := some request, pipe := rest }
          else none
      | _, _, _ => none
  | .closeRequest =>
      match s.serving, s.procs srv.server_tgid with
      | some request, some table =>
          some { s.setTable srv.server_tgid (Function.update table request.ack_fd none) with
            serving := none
            closed := s.closed ++ [⟨request, table request.ack_fd⟩] }
      | _, _ => none

omit [DecidableEq P] in
/-- The server's table at its start; opened tells the descriptors its process
has beside the request pipe. -/
def startTable (srv : ExternalHandlerState P) (opened : ℕ → Bool) : Table := fun fd =>
  if fd = srv.server_fd then some .requestWrite
  else if fd = srv.read_fd then some .requestRead
  else if opened fd then some .other else none

def init (srv : ExternalHandlerState P) (opened : ℕ → Bool) : State P where
  procs := Function.update (fun _ => none) srv.server_tgid (some (startTable srv opened))
  calls := fun _ => none
  next := 0
  pipe := []
  serving := none
  closed := []

/-- Every number closed was opened by the server's own process for that very
request, and was still open. -/
def Sound (srv : ExternalHandlerState P) (s : State P) : Prop :=
  ∀ c ∈ s.closed, c.request.origin = srv.server_tgid ∧ c.found = some (.ack c.request.call)

/-- No process but the server's own calls backtrace. -/
def OwnBacktrace (srv : ExternalHandlerState P) (_ : State P) : Act P → Prop
  | .backtrace p => p = srv.server_tgid
  | _ => True

/-- What each step can do, with the guards it had to pass. -/
inductive Move (srv : ExternalHandlerState P) (s : State P) : Act P → State P → Prop
  | fork (parent child : P) (table : Table) (hparent : s.procs parent = some table)
      (hchild : s.procs child = none) : Move srv s (.fork parent child) (s.setTable child table)
  | exit (p : P) (hp : p ≠ srv.server_tgid) :
      Move srv s (.exit p) { s with
        procs := Function.update s.procs p none
        calls := fun call => (s.calls call).filter fun c => c.proc ≠ p }
  | openOther (p : P) (fd : ℕ) (table : Table) (hp : s.procs p = some table)
      (hfree : table fd = none) :
      Move srv s (.openOther p fd) (s.setTable p (Function.update table fd (some .other)))
  | closeOther (p : P) (fd : ℕ) (table : Table) (hp : s.procs p = some table)
      (hown : table fd = some .other ∨ p ≠ srv.server_tgid) :
      Move srv s (.closeOther p fd) (s.setTable p (Function.update table fd none))
  | ignored (p : P) (hp : srv.server_tgid ≠ p) : Move srv s (.externalSignal p) s
  | externalSignal : Move srv s (.externalSignal srv.server_tgid) (s.enter srv.server_tgid)
  | backtrace (p : P) : Move srv s (.backtrace p) (s.enter p)
  | pipe (call r w : ℕ) (p : P) (table : Table) (hcall : s.calls call = some ⟨p, .entered⟩)
      (hp : s.procs p = some table) (hr : table r = none) (hw : table w = none) (hrw : r ≠ w) :
      Move srv s (.pipe call r w)
        ((s.setTable p (Function.update (Function.update table r (some (.readEnd call))) w
          (some (.ack call)))).setCall call (some ⟨p, .opened r w⟩))
  | pipeFails (call : ℕ) : Move srv s (.pipeFails call) (s.setCall call none)
  | closeRead (call r w : ℕ) (p : P) (table : Table)
      (hcall : s.calls call = some ⟨p, .opened r w⟩) (hp : s.procs p = some table) :
      Move srv s (.closeRead call)
        ((s.setTable p (Function.update table r none)).setCall call (some ⟨p, .sending w⟩))
  | writeFails (call w : ℕ) (p : P) (hcall : s.calls call = some ⟨p, .sending w⟩) :
      Move srv s (.write call false) (s.setCall call (some ⟨p, .failed w⟩))
  | write (call w : ℕ) (p : P) (hcall : s.calls call = some ⟨p, .sending w⟩) :
      Move srv s (.write call true) { s.setCall call none with pipe := s.pipe ++ [⟨w, p, call⟩] }
  | writeElsewhere (call : ℕ) : Move srv s (.write call true) (s.setCall call none)
  | closeAck (call w : ℕ) (p : P) (table : Table) (hcall : s.calls call = some ⟨p, .failed w⟩)
      (hp : s.procs p = some table) :
      Move srv s (.closeAck call)
        ((s.setTable p (Function.update table w none)).setCall call none)
  | read (request : Request P) (rest : List (Request P)) (hserving : s.serving = none)
      (hpipe : s.pipe = request :: rest) :
      Move srv s .read { s with serving := some request, pipe := rest }
  | closeRequest (request : Request P) (table : Table) (hserving : s.serving = some request)
      (hp : s.procs srv.server_tgid = some table) :
      Move srv s .closeRequest
        { s.setTable srv.server_tgid (Function.update table request.ack_fd none) with
          serving := none
          closed := s.closed ++ [⟨request, table request.ack_fd⟩] }

theorem step_move (srv : ExternalHandlerState P) (s : State P) (a : Act P) (s' : State P)
    (h : step srv s a = some s') : Move srv s a s' := by
  cases a with
  | fork parent child =>
    simp only [step] at h
    split at h
    · rename_i table hparent hchild
      cases h
      exact .fork parent child table hparent hchild
    · cases h
  | exit p =>
    simp only [step] at h
    split at h
    · cases h
    · rename_i hp
      cases h
      exact .exit p hp
  | openOther p fd =>
    obtain ⟨table, hp, h⟩ := Option.bind_eq_some_iff.mp h
    simp only [Option.ite_none_right_eq_some, Option.some.injEq] at h
    obtain ⟨hfree, rfl⟩ := h
    exact .openOther p fd table hp hfree
  | closeOther p fd =>
    obtain ⟨table, hp, h⟩ := Option.bind_eq_some_iff.mp h
    simp only [Option.ite_none_right_eq_some, Option.some.injEq] at h
    obtain ⟨hown, rfl⟩ := h
    exact .closeOther p fd table hp hown
  | externalSignal p =>
    obtain ⟨table, _, h⟩ := Option.map_eq_some_iff.mp h
    by_cases hp : srv.server_tgid = p
    · subst hp
      rw [if_neg (by simp)] at h
      subst h
      exact .externalSignal
    · rw [if_pos hp] at h
      subst h
      exact .ignored p hp
  | backtrace p =>
    obtain ⟨table, _, rfl⟩ := Option.map_eq_some_iff.mp h
    exact .backtrace p
  | pipe call r w =>
    simp only [step] at h
    split at h
    · rename_i p hcall
      obtain ⟨table, hp, h⟩ := Option.bind_eq_some_iff.mp h
      simp only [Option.ite_none_right_eq_some, Option.some.injEq] at h
      obtain ⟨⟨hr, hw, hrw⟩, rfl⟩ := h
      exact .pipe call r w p table hcall hp hr hw hrw
    · cases h
  | pipeFails call =>
    simp only [step] at h
    split at h
    · cases h
      exact .pipeFails call
    · cases h
  | closeRead call =>
    simp only [step] at h
    split at h
    · rename_i p r w hcall
      obtain ⟨table, hp, rfl⟩ := Option.map_eq_some_iff.mp h
      exact .closeRead call r w p table hcall hp
    · cases h
  | write call accepted =>
    simp only [step] at h
    split at h
    · rename_i p w hcall
      obtain ⟨table, _, h⟩ := Option.bind_eq_some_iff.mp h
      split at h
      · cases h
        exact .writeFails call w p hcall
      · cases h
        exact .write call w p hcall
      · cases h
        exact .writeElsewhere call
      · cases h
    · cases h
  | closeAck call =>
    simp only [step] at h
    split at h
    · rename_i p w hcall
      obtain ⟨table, hp, rfl⟩ := Option.map_eq_some_iff.mp h
      exact .closeAck call w p table hcall hp
    · cases h
  | read =>
    simp only [step] at h
    split at h
    · rename_i request rest table hserving hpipe _
      simp only [Option.ite_none_right_eq_some, Option.some.injEq] at h
      obtain ⟨_, rfl⟩ := h
      exact .read request rest hserving hpipe
    · cases h
  | closeRequest =>
    simp only [step] at h
    split at h
    · rename_i request table hserving hp
      cases h
      exact .closeRequest request table hserving hp
    · cases h

/-- The numbers a call still handles are its own descriptors. -/
def Owned (table : Table) (call : ℕ) : Stage → Prop
  | .entered => True
  | .opened r w => table r = some (.readEnd call) ∧ table w = some (.ack call)
  | .sending w => table w = some (.ack call)
  | .failed w => table w = some (.ack call)

/-- The requests not yet answered, oldest first. -/
def pending (s : State P) : List (Request P) := s.serving.toList ++ s.pipe

/-- The request came from the server's own process and its number still is the
descriptor its call opened. -/
structure Live (srv : ExternalHandlerState P) (table : Table) (s : State P)
    (request : Request P) : Prop where
  origin : request.origin = srv.server_tgid
  used : request.call < s.next
  ended : s.calls request.call = none
  found : table request.ack_fd = some (.ack request.call)

structure Inv (srv : ExternalHandlerState P) (table : Table) (s : State P) : Prop where
  alive : s.procs srv.server_tgid = some table
  calls : ∀ call c, s.calls call = some c →
    call < s.next ∧ c.proc = srv.server_tgid ∧ Owned table call c.stage
  live : ∀ request ∈ pending s, Live srv table s request
  distinct : ((pending s).map Request.call).Nodup
  sound : Sound srv s

theorem update_keeps (table : Table) (fd x : ℕ) (d : Descriptor) (v : Option Descriptor)
    (hx : table x = some d) (hfd : table fd ≠ some d) : Function.update table fd v x = some d := by
  have hne : x ≠ fd := by
    intro heq
    subst heq
    exact hfd hx
  simpa [hne] using hx

theorem owned_update (table : Table) (fd call : ℕ) (stage : Stage) (v : Option Descriptor)
    (h : Owned table call stage) (hread : table fd ≠ some (.readEnd call))
    (hack : table fd ≠ some (.ack call)) : Owned (Function.update table fd v) call stage := by
  cases stage with
  | entered => trivial
  | opened r w =>
    exact ⟨update_keeps table fd r _ v h.1 hread, update_keeps table fd w _ v h.2 hack⟩
  | sending w => exact update_keeps table fd w _ v h hack
  | failed w => exact update_keeps table fd w _ v h hack

/-- A number that is no handler descriptor is opened or closed in the server's process. -/
theorem inv_update (srv : ExternalHandlerState P) (table : Table) (s : State P) (fd : ℕ)
    (v : Option Descriptor) (h : Inv srv table s)
    (hread : ∀ call, table fd ≠ some (.readEnd call)) (hack : ∀ call, table fd ≠ some (.ack call)) :
    Inv srv (Function.update table fd v)
      (s.setTable srv.server_tgid (Function.update table fd v)) where
  alive := by simp [State.setTable]
  calls call c hc := by
    obtain ⟨hused, hproc, howned⟩ := h.calls call c hc
    exact ⟨hused, hproc, owned_update table fd call c.stage v howned (hread call) (hack call)⟩
  live request hmem := by
    have hlive := h.live request hmem
    exact ⟨hlive.origin, hlive.used, hlive.ended,
      update_keeps table fd _ _ v hlive.found (hack request.call)⟩
  distinct := h.distinct
  sound := h.sound

/-- Whatever a forked process does to its own table. -/
theorem inv_procs (srv : ExternalHandlerState P) (table : Table) (s : State P) (p : P)
    (v : Option Table) (hp : p ≠ srv.server_tgid) (h : Inv srv table s) :
    Inv srv table { s with procs := Function.update s.procs p v } where
  alive := by
    simp only [Function.update_of_ne hp.symm]
    exact h.alive
  calls := h.calls
  live request hmem := by
    have hlive := h.live request hmem
    exact ⟨hlive.origin, hlive.used, hlive.ended, hlive.found⟩
  distinct := h.distinct
  sound := h.sound

theorem inv_exit (srv : ExternalHandlerState P) (table : Table) (s : State P) (p : P)
    (hp : p ≠ srv.server_tgid) (h : Inv srv table s) :
    Inv srv table { s with
      procs := Function.update s.procs p none
      calls := fun call => (s.calls call).filter fun c => c.proc ≠ p } := by
  have hprocs := inv_procs srv table s p none hp h
  constructor
  · exact hprocs.alive
  · intro call c hc
    exact h.calls call c (Option.filter_eq_some_iff.mp hc).1
  · intro request hmem
    have hlive := h.live request hmem
    refine ⟨hlive.origin, hlive.used, ?_, hlive.found⟩
    simp [hlive.ended]
  · exact h.distinct
  · exact h.sound

omit [DecidableEq P] in
theorem inv_enter (srv : ExternalHandlerState P) (table : Table) (s : State P)
    (h : Inv srv table s) : Inv srv table (s.enter srv.server_tgid) := by
  constructor
  · exact h.alive
  · intro call c hc
    by_cases hcall : call = s.next
    · subst hcall
      simp only [State.enter, State.setCall, Function.update_self, Option.some.injEq] at hc
      subst hc
      exact ⟨Nat.lt_succ_self s.next, rfl, trivial⟩
    · simp only [State.enter, State.setCall, Function.update_of_ne hcall] at hc
      obtain ⟨hused, hproc, howned⟩ := h.calls call c hc
      exact ⟨Nat.lt_succ_of_lt hused, hproc, howned⟩
  · intro request hmem
    have hlive := h.live request hmem
    refine ⟨hlive.origin, Nat.lt_succ_of_lt hlive.used, ?_, hlive.found⟩
    have hne : request.call ≠ s.next := Nat.ne_of_lt hlive.used
    simp only [State.enter, State.setCall, Function.update_of_ne hne]
    exact hlive.ended
  · exact h.distinct
  · exact h.sound

omit [DecidableEq P] in
/-- A call goes on to a stage whose numbers are its own. -/
theorem inv_setCall (srv : ExternalHandlerState P) (table : Table) (s : State P) (call : ℕ)
    (c : Call P) (stage : Stage) (h : Inv srv table s) (hcall : s.calls call = some c)
    (howned : Owned table call stage) :
    Inv srv table (s.setCall call (some ⟨c.proc, stage⟩)) := by
  have hc := h.calls call c hcall
  constructor
  · exact h.alive
  · intro id d hd
    by_cases hid : id = call
    · subst hid
      simp only [State.setCall, Function.update_self, Option.some.injEq] at hd
      subst hd
      exact ⟨hc.1, hc.2.1, howned⟩
    · simp only [State.setCall, Function.update_of_ne hid] at hd
      exact h.calls id d hd
  · intro request hmem
    have hlive := h.live request hmem
    refine ⟨hlive.origin, hlive.used, ?_, hlive.found⟩
    have hne : request.call ≠ call := by
      intro heq
      have hended := hlive.ended
      rw [heq, hcall] at hended
      cases hended
    simp only [State.setCall, Function.update_of_ne hne]
    exact hlive.ended
  · exact h.distinct
  · exact h.sound

omit [DecidableEq P] in
theorem inv_endCall (srv : ExternalHandlerState P) (table : Table) (s : State P) (call : ℕ)
    (h : Inv srv table s) : Inv srv table (s.setCall call none) := by
  constructor
  · exact h.alive
  · intro id d hd
    by_cases hid : id = call
    · subst hid
      simp [State.setCall] at hd
    · simp only [State.setCall, Function.update_of_ne hid] at hd
      exact h.calls id d hd
  · intro request hmem
    have hlive := h.live request hmem
    refine ⟨hlive.origin, hlive.used, ?_, hlive.found⟩
    by_cases hid : request.call = call
    · simp [State.setCall, hid]
    · simp only [State.setCall, Function.update_of_ne hid]
      exact hlive.ended
  · exact h.distinct
  · exact h.sound

/-- A call closes a descriptor of its own and goes on, or ends. -/
theorem inv_closeOwn (srv : ExternalHandlerState P) (table : Table) (s : State P) (call fd : ℕ)
    (c : Call P) (next : Option (Call P)) (h : Inv srv table s) (hcall : s.calls call = some c)
    (hfd : table fd = some (.readEnd call) ∨ table fd = some (.ack call))
    (hnext : ∀ d, next = some d →
      d.proc = c.proc ∧ Owned (Function.update table fd none) call d.stage) :
    Inv srv (Function.update table fd none)
      ((s.setTable srv.server_tgid (Function.update table fd none)).setCall call next) := by
  have hread : ∀ id, id ≠ call → table fd ≠ some (.readEnd id) := by
    intro id hid heq
    rcases hfd with hfd | hfd <;> simp_all
  have hack : ∀ id, id ≠ call → table fd ≠ some (.ack id) := by
    intro id hid heq
    rcases hfd with hfd | hfd <;> simp_all
  constructor
  · simp [State.setCall, State.setTable]
  · intro id d hd
    by_cases hid : id = call
    · subst hid
      simp only [State.setCall, Function.update_self] at hd
      obtain ⟨hproc, howned⟩ := hnext d hd
      have hc := h.calls id c hcall
      exact ⟨hc.1, hproc.trans hc.2.1, howned⟩
    · simp only [State.setCall, Function.update_of_ne hid] at hd
      obtain ⟨hused, hproc, howned⟩ := h.calls id d hd
      exact ⟨hused, hproc, owned_update table fd id d.stage none howned (hread id hid) (hack id hid)⟩
  · intro request hmem
    have hlive := h.live request hmem
    have hne : request.call ≠ call := by
      intro heq
      have hended := hlive.ended
      rw [heq, hcall] at hended
      cases hended
    refine ⟨hlive.origin, hlive.used, ?_, ?_⟩
    · simp only [State.setCall, Function.update_of_ne hne]
      exact hlive.ended
    · exact update_keeps table fd _ _ none hlive.found (hack request.call hne)
  · exact h.distinct
  · exact h.sound

/-- RequestProcessor closes the number of the request it serves: the descriptor
that was opened for it. -/
theorem inv_closeRequest (srv : ExternalHandlerState P) (table : Table) (s : State P)
    (request : Request P) (h : Inv srv table s) (hserving : s.serving = some request) :
    Inv srv (Function.update table request.ack_fd none)
      { s.setTable srv.server_tgid (Function.update table request.ack_fd none) with
        serving := none
        closed := s.closed ++ [⟨request, table request.ack_fd⟩] } := by
  have hpending : pending s = request :: s.pipe := by
    simp [pending, hserving]
  have hlive := h.live request (by simp [hpending])
  have hdistinct := h.distinct
  rw [hpending, List.map_cons, List.nodup_cons] at hdistinct
  constructor
  · simp [State.setTable]
  · intro id d hd
    obtain ⟨hused, hproc, howned⟩ := h.calls id d hd
    refine ⟨hused, hproc, owned_update table _ id d.stage none howned ?_ ?_⟩
    · simp [hlive.found]
    · intro heq
      rw [hlive.found] at heq
      cases heq
      have hended := hlive.ended
      rw [show s.calls request.call = some d from hd] at hended
      cases hended
  · intro other hmem
    change other ∈ s.pipe at hmem
    have hother := h.live other (by simp [hpending, hmem])
    refine ⟨hother.origin, hother.used, hother.ended, ?_⟩
    apply update_keeps table _ _ _ none hother.found
    intro heq
    rw [hlive.found] at heq
    have hcall : request.call = other.call := Descriptor.ack.inj (Option.some.inj heq)
    exact hdistinct.1 (List.mem_map.mpr ⟨other, hmem, hcall.symm⟩)
  · exact hdistinct.2
  · intro c hc
    rcases List.mem_append.mp hc with hc | hc
    · exact h.sound c hc
    · rw [List.mem_singleton] at hc
      subst hc
      exact ⟨hlive.origin, hlive.found⟩

omit [DecidableEq P] in
theorem inv_write (srv : ExternalHandlerState P) (table : Table) (s : State P) (call w : ℕ)
    (p : P) (h : Inv srv table s) (hcall : s.calls call = some ⟨p, .sending w⟩) :
    Inv srv table { s.setCall call none with pipe := s.pipe ++ [⟨w, p, call⟩] } := by
  have hended := inv_endCall srv table s call h
  obtain ⟨hused, hproc, howned⟩ := h.calls call _ hcall
  have hpending : pending ({ s.setCall call none with pipe := s.pipe ++ [⟨w, p, call⟩] } : State P) =
      pending s ++ [⟨w, p, call⟩] := by
    simp [pending, State.setCall]
  constructor
  · exact h.alive
  · exact hended.calls
  · intro request hmem
    rw [hpending] at hmem
    rcases List.mem_append.mp hmem with hmem | hmem
    · have hlive := hended.live request hmem
      exact ⟨hlive.origin, hlive.used, hlive.ended, hlive.found⟩
    · rw [List.mem_singleton] at hmem
      subst hmem
      exact ⟨hproc, hused, by simp [State.setCall], howned⟩
  · rw [hpending, List.map_append, List.nodup_append]
    refine ⟨h.distinct, List.nodup_singleton _, ?_⟩
    intro a ha b hb heq
    obtain ⟨request, hmem, rfl⟩ := List.mem_map.mp ha
    simp only [List.map_cons, List.map_nil, List.mem_singleton] at hb
    have hended := (h.live request hmem).ended
    rw [heq, hb, hcall] at hended
    cases hended
  · exact h.sound

theorem inv_pipe (srv : ExternalHandlerState P) (table : Table) (s : State P) (call r w : ℕ)
    (h : Inv srv table s) (hcall : s.calls call = some ⟨srv.server_tgid, .entered⟩)
    (hr : table r = none) (hw : table w = none) (hrw : r ≠ w) :
    ∃ table', Inv srv table'
      ((s.setTable srv.server_tgid (Function.update (Function.update table r
        (some (.readEnd call))) w (some (.ack call)))).setCall call
          (some ⟨srv.server_tgid, .opened r w⟩)) := by
  have hread := inv_update srv table s r (some (.readEnd call)) h (by simp [hr]) (by simp [hr])
  have hw' : Function.update table r (some (.readEnd call)) w = none := by
    rw [Function.update_of_ne hrw.symm, hw]
  have hack := inv_update srv _ _ w (some (.ack call)) hread (by simp [hw']) (by simp [hw'])
  simp only [State.setTable, Function.update_idem] at hack
  refine ⟨_, inv_setCall srv _ _ call _ (.opened r w) hack hcall ?_⟩
  refine ⟨?_, by simp⟩
  rw [Function.update_of_ne hrw, Function.update_self]

/-- A step in which no other process calls backtrace keeps every request live. -/
theorem step_inv (srv : ExternalHandlerState P) (s : State P) (a : Act P) (s' : State P)
    (hstep : step srv s a = some s') (hok : OwnBacktrace srv s a)
    (hinv : ∃ table, Inv srv table s) : ∃ table, Inv srv table s' := by
  obtain ⟨table, h⟩ := hinv
  have hserver : ∀ call c table', s.calls call = some c → s.procs c.proc = some table' →
      c.proc = srv.server_tgid ∧ table' = table := by
    intro call c table' hcall hp
    obtain ⟨_, hproc, _⟩ := h.calls call c hcall
    rw [hproc, h.alive] at hp
    exact ⟨hproc, (Option.some.inj hp).symm⟩
  cases step_move srv s a s' hstep with
  | fork parent child table' hparent hchild =>
    have hne : child ≠ srv.server_tgid := by
      intro heq
      rw [heq, h.alive] at hchild
      cases hchild
    exact ⟨table, inv_procs srv table s child _ hne h⟩
  | exit p hp => exact ⟨table, inv_exit srv table s p hp h⟩
  | openOther p fd table' hp hfree =>
    by_cases heq : p = srv.server_tgid
    · subst heq
      rw [h.alive] at hp
      cases hp
      exact ⟨_, inv_update srv table s fd _ h (by simp [hfree]) (by simp [hfree])⟩
    · exact ⟨table, inv_procs srv table s p _ heq h⟩
  | closeOther p fd table' hp hown =>
    by_cases heq : p = srv.server_tgid
    · subst heq
      rw [h.alive] at hp
      cases hp
      have hother := hown.resolve_right (by simp)
      exact ⟨_, inv_update srv table s fd _ h (by simp [hother]) (by simp [hother])⟩
    · exact ⟨table, inv_procs srv table s p _ heq h⟩
  | ignored p hp => exact ⟨table, h⟩
  | externalSignal => exact ⟨table, inv_enter srv table s h⟩
  | backtrace p =>
    have hp : p = srv.server_tgid := hok
    subst hp
    exact ⟨table, inv_enter srv table s h⟩
  | pipe call r w p table' hcall hp hr hw hrw =>
    obtain ⟨rfl, rfl⟩ := hserver call _ table' hcall hp
    exact inv_pipe srv table' s call r w h hcall hr hw hrw
  | pipeFails call => exact ⟨table, inv_endCall srv table s call h⟩
  | closeRead call r w p table' hcall hp =>
    obtain ⟨rfl, rfl⟩ := hserver call _ table' hcall hp
    obtain ⟨_, _, hread, hack⟩ := h.calls call _ hcall
    refine ⟨_, inv_closeOwn srv table' s call r _ _ h hcall (Or.inl hread) ?_⟩
    intro d hd
    cases hd
    refine ⟨rfl, update_keeps table' r w _ none hack ?_⟩
    simp [hread]
  | writeFails call w p hcall =>
    obtain ⟨_, _, howned⟩ := h.calls call _ hcall
    exact ⟨table, inv_setCall srv table s call _ (.failed w) h hcall howned⟩
  | write call w p hcall => exact ⟨table, inv_write srv table s call w p h hcall⟩
  | writeElsewhere call => exact ⟨table, inv_endCall srv table s call h⟩
  | closeAck call w p table' hcall hp =>
    obtain ⟨rfl, rfl⟩ := hserver call _ table' hcall hp
    obtain ⟨_, _, howned⟩ := h.calls call _ hcall
    exact ⟨_, inv_closeOwn srv table' s call w _ none h hcall (Or.inr howned) (by simp)⟩
  | read request rest hserving hpipe =>
    have hpending : pending ({ s with serving := some request, pipe := rest } : State P) =
        pending s := by
      simp [pending, hserving, hpipe]
    refine ⟨table, h.alive, h.calls, ?_, ?_, h.sound⟩
    · intro other hmem
      rw [hpending] at hmem
      have hlive := h.live other hmem
      exact ⟨hlive.origin, hlive.used, hlive.ended, hlive.found⟩
    · rw [hpending]
      exact h.distinct
  | closeRequest request table' hserving hp =>
    rw [h.alive] at hp
    cases hp
    exact ⟨_, inv_closeRequest srv table s request h hserving⟩

theorem init_inv (srv : ExternalHandlerState P) (opened : ℕ → Bool) :
    ∃ table, Inv srv table (init srv opened) := by
  refine ⟨startTable srv opened, by simp [init], ?_, ?_, List.nodup_nil, ?_⟩
  · intro call c hc
    cases hc
  · intro request hmem
    cases hmem
  · intro c hc
    cases hc

/-- In every run in which only the server's own process calls backtrace, every
number RequestProcessor closes is the descriptor opened for that very request. -/
theorem sound_of_own_backtrace (srv : ExternalHandlerState P) (opened : ℕ → Bool)
    (actions : List (Act P)) (hok : Meets (step srv) (OwnBacktrace srv) (init srv opened) actions) :
    Along (step srv) (Sound srv) (init srv opened) actions := by
  have halong := along_of_meets (step_inv srv) (init srv opened) actions (init_inv srv opened) hok
  exact halong.mono fun s hs => hs.elim fun _ h => h.sound

/-- A signal in the server's process, served and acknowledged beside others. -/
theorem sound_of_own_backtrace_signal :
    let srv : ExternalHandlerState ℕ := ⟨100, 4, 3⟩
    let start := init srv fun _ => false
    let actions : List (Act ℕ) := [.externalSignal 100, .fork 100 101, .externalSignal 101,
      .pipe 0 5 6, .closeRead 0, .write 0 true, .backtrace 100, .read, .closeRequest]
    (run (step srv) start actions).map (·.closed) = some [⟨⟨6, 100, 0⟩, some (.ack 0)⟩] ∧
      Along (step srv) (Sound srv) start actions := by
  refine ⟨rfl, ?_⟩
  apply sound_of_own_backtrace
  apply meets_of_forall
  simp [OwnBacktrace]

/-- A forked process calls backtrace: its number 6 is an unrelated descriptor of
the server's process, which the server closes. -/
theorem foreign_descriptor_closed :
    ∃ s : State ℕ, Reachable (step ⟨100, 4, 3⟩) (init ⟨100, 4, 3⟩ fun _ => false) s ∧
      (∃ c ∈ s.closed, c.request.ack_fd = 6 ∧ c.request.origin = 101 ∧ c.found = some .other) ∧
      ¬ Sound ⟨100, 4, 3⟩ s := by
  have hrun : ∃ s : State ℕ, run (step ⟨100, 4, 3⟩) (init ⟨100, 4, 3⟩ fun _ => false)
      [.fork 100 101, .openOther 100 6, .backtrace 101, .pipe 0 5 6, .closeRead 0, .write 0 true,
        .read, .closeRequest] = some s ∧ s.closed = [⟨⟨6, 101, 0⟩, some .other⟩] :=
    ⟨_, rfl, rfl⟩
  obtain ⟨s, hs, hclosed⟩ := hrun
  refine ⟨s, ⟨_, hs⟩, ⟨_, by rw [hclosed]; exact List.mem_singleton_self _, rfl, rfl, rfl⟩, ?_⟩
  intro hsound
  have horigin := (hsound _ (by rw [hclosed]; exact List.mem_singleton_self _)).1
  simp at horigin

end JvmTrace.StackTraceServer
