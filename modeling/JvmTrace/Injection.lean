import JvmTrace.LibrarySearch
import JvmTrace.PtraceWrite
import JvmTrace.Runs

/-!
main of src/tt.cpp beside its target, from the attach on. The loops of ptrace_cont and
ptrace_call poll with waitpid, which does not block, and test a status that nothing has
initialised: the second waits for a status of a process killed by a signal. The target
runs code of its own until it stops; it may exit, and it may be killed at any time. What
the tool does to a stopped target between two tests is one step. Kept beside the state:
what the target was resumed with, and what it was when it stopped. A target that stops
before the loops are left goes through the session with one call.
-/
namespace JvmTrace.Injection

open Runs Ptrace Elf Loops LinkMap DynamicSection RemoteStrings SymbolLookup LibrarySearch

abbrev Status := BitVec 32

def WIFSTOPPED (status : Status) : Bool := decide (status &&& 0xff = 0x7f)

/-- The signed char of the macro. -/
def WIFSIGNALED (status : Status) : Bool :=
  decide (0 < ((((status &&& 0x7f) + 1).setWidth 8).sshiftRight 1).toInt)

def WIFEXITED (status : Status) : Bool := decide (status &&& 0x7f = 0)

inductive Life
  | stopped
  | running
  | gone
  | detached
  deriving DecidableEq

/-- Where main is: in ptrace_call, in the loop of ptrace_cont, in that of ptrace_call, in
ptrace_detach, or behind one of its exits. -/
inductive Pc
  | calling
  | continuing
  | awaitStop (stat : Status)
  | awaitSignal (stat : Status)
  | restoring
  | detaching
  | done
  | failed
  deriving DecidableEq

/-- What the two variables stat hold before a waitpid sets them. -/
structure Garbage where
  cont_stat : Status
  call_stat : Status

/-- The news is what the next waitpid reports. -/
structure State where
  life : Life
  news : Option Status
  target : Tracee
  oldregs : user_regs_struct
  sym_addr : Word
  pc : Pc
  resumed : Option Machine
  left : Option Machine

/-- Of the tool: its calls, one test of a loop with its waitpid, and a test that ends a
loop. Of the target: it stops behind code of its own, exits, or is killed. -/
inductive Act
  | call
  | cont
  | poll
  | leave
  | restore
  | detach
  | stop (code : Machine → Machine) (status : Status)
  | exit (status : Status)
  | kill (status : Status)

/-- main at call_mtrace. -/
def start (m : Machine) (sym_addr : Word) : State where
  life := .stopped
  news := none
  target := (ptrace_attach m).1
  oldregs := (ptrace_attach m).2
  sym_addr := sym_addr
  pc := .calling
  resumed := none
  left := none

/-- The argument of the strcpy in main. -/
def mtrace : SymName := ⟨[0x6d, 0x74, 0x72, 0x61, 0x63, 0x65], by decide⟩

/-- main up to call_mtrace. The answer of find_symbol is not tested. -/
def main (heap : SearchHeap) (m : Machine) : Option State := do
  let (t, _) := ptrace_attach m
  let map ← get_linkmap t.memory
  let (sym_addr, _) ← find_symbol heap t.memory map mtrace Globals.start
  return start m sym_addr

namespace State

/-- ptrace_call up to ptrace_cont. Nothing can be read from or written to a process that
is gone. -/
def call (s : State) : State :=
  if s.life = .stopped then
    let t := (ptrace_push s.target (bytesOf 0x41414140) 4).1
    { s with target := ptrace_writereg t { t.regs with eip := s.sym_addr }, pc := .continuing }
  else { s with pc := .continuing }

def cont (g : Garbage) (s : State) : State :=
  if s.life = .stopped then
    { s with life := .running, resumed := some s.target.toMachine, pc := .awaitStop g.cont_stat }
  else { s with pc := .failed }

/-- The first half of ptrace_detach. -/
def restore (s : State) : State :=
  if s.life = .stopped then
    { s with target := ptrace_writereg s.target s.oldregs, pc := .detaching }
  else { s with pc := .detaching }

def detach (s : State) : State :=
  if s.life = .stopped then { s with life := .detached, pc := .done } else { s with pc := .failed }

end State

def step (g : Garbage) (s : State) (a : Act) : Option State :=
  match a with
  | .call =>
    match s.pc with
    | .calling => some s.call
    | _ => none
  | .cont =>
    match s.pc with
    | .continuing => some (s.cont g)
    | _ => none
  | .poll =>
    match s.pc with
    | .awaitStop stat =>
      if WIFSTOPPED stat then none
      else some { s with pc := .awaitStop (s.news.getD stat), news := none }
    | .awaitSignal stat =>
      if WIFSIGNALED stat then none
      else some { s with pc := .awaitSignal (s.news.getD stat), news := none }
    | _ => none
  | .leave =>
    match s.pc with
    | .awaitStop stat =>
      if WIFSTOPPED stat then some { s with pc := .awaitSignal g.call_stat } else none
    | .awaitSignal stat => if WIFSIGNALED stat then some { s with pc := .restoring } else none
    | _ => none
  | .restore =>
    match s.pc with
    | .restoring => some s.restore
    | _ => none
  | .detach =>
    match s.pc with
    | .detaching => some s.detach
    | _ => none
  | .stop code status =>
    if s.life = .running ∧ WIFSTOPPED status then
      some { s with
        life := .stopped
        news := some status
        target := { s.target with toMachine := code s.target.toMachine }
        left := some (code s.target.toMachine) }
    else none
  | .exit status =>
    if s.life = .running ∧ WIFEXITED status then
      some { s with life := .gone, news := some status }
    else none
  | .kill status =>
    if (s.life = .stopped ∨ s.life = .running) ∧ WIFSIGNALED status then
      some { s with life := .gone, news := some status }
    else none

/-- What each step can do, with the guards it had to pass. -/
inductive Move (g : Garbage) (s : State) : Act → State → Prop
  | call (hpc : s.pc = .calling) : Move g s .call s.call
  | cont (hpc : s.pc = .continuing) : Move g s .cont (s.cont g)
  | pollStop (stat : Status) (hpc : s.pc = .awaitStop stat) (hgo : WIFSTOPPED stat = false) :
      Move g s .poll { s with pc := .awaitStop (s.news.getD stat), news := none }
  | pollSignal (stat : Status) (hpc : s.pc = .awaitSignal stat) (hgo : WIFSIGNALED stat = false) :
      Move g s .poll { s with pc := .awaitSignal (s.news.getD stat), news := none }
  | leaveStop (stat : Status) (hpc : s.pc = .awaitStop stat) (hend : WIFSTOPPED stat = true) :
      Move g s .leave { s with pc := .awaitSignal g.call_stat }
  | leaveSignal (stat : Status) (hpc : s.pc = .awaitSignal stat) (hend : WIFSIGNALED stat = true) :
      Move g s .leave { s with pc := .restoring }
  | restore (hpc : s.pc = .restoring) : Move g s .restore s.restore
  | detach (hpc : s.pc = .detaching) : Move g s .detach s.detach
  | stop (code : Machine → Machine) (status : Status) (hlife : s.life = .running)
      (hstatus : WIFSTOPPED status = true) :
      Move g s (.stop code status)
        { s with
          life := .stopped
          news := some status
          target := { s.target with toMachine := code s.target.toMachine }
          left := some (code s.target.toMachine) }
  | exit (status : Status) (hlife : s.life = .running) :
      Move g s (.exit status) { s with life := .gone, news := some status }
  | kill (status : Status) (hlife : s.life = .stopped ∨ s.life = .running) :
      Move g s (.kill status) { s with life := .gone, news := some status }

theorem step_move (g : Garbage) (s s' : State) (a : Act) (h : step g s a = some s') :
    Move g s a s' := by
  unfold step at h
  cases a with
  | call =>
    dsimp only at h
    split at h
    · obtain rfl := Option.some.inj h
      exact Move.call ‹_›
    · cases h
  | cont =>
    dsimp only at h
    split at h
    · obtain rfl := Option.some.inj h
      exact Move.cont ‹_›
    · cases h
  | poll =>
    dsimp only at h
    split at h
    · split_ifs at h with hgo
      obtain rfl := Option.some.inj h
      exact Move.pollStop _ ‹_› (by simpa using hgo)
    · split_ifs at h with hgo
      obtain rfl := Option.some.inj h
      exact Move.pollSignal _ ‹_› (by simpa using hgo)
    · cases h
  | leave =>
    dsimp only at h
    split at h
    · split_ifs at h with hend
      obtain rfl := Option.some.inj h
      exact Move.leaveStop _ ‹_› hend
    · split_ifs at h with hend
      obtain rfl := Option.some.inj h
      exact Move.leaveSignal _ ‹_› hend
    · cases h
  | restore =>
    dsimp only at h
    split at h
    · obtain rfl := Option.some.inj h
      exact Move.restore ‹_›
    · cases h
  | detach =>
    dsimp only at h
    split at h
    · obtain rfl := Option.some.inj h
      exact Move.detach ‹_›
    · cases h
  | stop code status =>
    dsimp only at h
    split_ifs at h with hguard
    obtain rfl := Option.some.inj h
    exact Move.stop code status hguard.1 hguard.2
  | exit status =>
    dsimp only at h
    split_ifs at h with hguard
    obtain rfl := Option.some.inj h
    exact Move.exit status hguard.1
  | kill status =>
    dsimp only at h
    split_ifs at h with hguard
    obtain rfl := Option.some.inj h
    exact Move.kill status hguard.1

/-- The status of a stop is not one of a process killed by a signal. -/
theorem not_signaled_of_stopped (status : Status) (h : WIFSTOPPED status = true) :
    WIFSIGNALED status = false := by
  have hlow : status &&& 0x7f = 0x7f := by
    have hmask : (0x7f : Status) = 0xff &&& 0x7f := rfl
    rw [hmask, ← BitVec.and_assoc, of_decide_eq_true h]
    rfl
  unfold WIFSIGNALED
  rw [hlow]
  rfl

/-- The target as if it had called the address, with 0x41414140 to return to. -/
def entered (m : Machine) (sym_addr : Word) : Machine where
  regs := { m.regs with esp := pushed m.regs.esp 4, eip := sym_addr }
  memory a :=
    if (a - pushed m.regs.esp 4).toNat < 4
    then bytesOf 0x41414140 (a - pushed m.regs.esp 4).toNat else m.memory a

theorem call_machine (s : State) (hlife : s.life = .stopped) :
    s.call.target.toMachine = entered s.target.toMachine s.sym_addr := by
  have hregs := PtraceSession.push_esp s.target (bytesOf 0x41414140) 4
  have hmemory : ∀ a, (ptrace_push s.target (bytesOf 0x41414140) 4).1.memory a =
      (entered s.target.toMachine s.sym_addr).memory a :=
    PtraceWrite.ptrace_write_memory _ (pushed s.target.regs.esp 4) (bytesOf 0x41414140) 4
      (by decide)
  unfold State.call
  rw [if_pos hlife]
  simp only [ptrace_writereg, hregs]
  unfold entered at hmemory ⊢
  rw [Machine.mk.injEq]
  exact ⟨rfl, funext hmemory⟩

/-- The target is not resumed before it is ready, and then it is the call. -/
structure Entry (m : Machine) (sym_addr : Word) (s : State) : Prop where
  address : s.sym_addr = sym_addr
  oldregs : s.oldregs = m.regs
  calling : s.pc = .calling → s.target.toMachine = m
  continuing : s.pc = .continuing → s.life = .stopped → s.target.toMachine = entered m sym_addr
  still : s.pc = .calling ∨ s.pc = .continuing → s.life ≠ .running
  resumed : ∀ m', s.resumed = some m' → m' = entered m sym_addr

theorem entry_start (m : Machine) (sym_addr : Word) : Entry m sym_addr (start m sym_addr) where
  address := rfl
  oldregs := rfl
  calling _ := rfl
  continuing hpc := by cases hpc
  still _ hlife := by cases hlife
  resumed _ hresumed := by cases hresumed

/-- Behind ptrace_cont the target does not matter. -/
theorem Entry.later {m : Machine} {sym_addr : Word} {s : State} (h : Entry m sym_addr s)
    (s' : State) (hsym_addr : s'.sym_addr = s.sym_addr) (holdregs : s'.oldregs = s.oldregs)
    (hresumed : s'.resumed = s.resumed) (hpc : s'.pc ≠ .calling ∧ s'.pc ≠ .continuing) :
    Entry m sym_addr s' where
  address := hsym_addr.trans h.address
  oldregs := holdregs.trans h.oldregs
  calling hcalling := absurd hcalling hpc.1
  continuing hcontinuing := absurd hcontinuing hpc.2
  still hearly := by
    rcases hearly with hcalling | hcontinuing
    · exact absurd hcalling hpc.1
    · exact absurd hcontinuing hpc.2
  resumed m' hm' := h.resumed m' (hresumed ▸ hm')

theorem entry_step (g : Garbage) (m : Machine) (sym_addr : Word) (s : State) (a : Act) (s' : State)
    (h : step g s a = some s') (hentry : Entry m sym_addr s) : Entry m sym_addr s' := by
  cases step_move g s s' a h with
  | call hpc =>
    have hmachine := call_machine s
    rw [hentry.calling hpc, hentry.address] at hmachine
    have hlife : s.call.life = s.life := by
      unfold State.call
      split_ifs <;> rfl
    have hpc' : s.call.pc = .continuing := by
      unfold State.call
      split_ifs <;> rfl
    have hrest : s.call.sym_addr = s.sym_addr ∧ s.call.oldregs = s.oldregs ∧
        s.call.resumed = s.resumed := by
      unfold State.call
      split_ifs <;> exact ⟨rfl, rfl, rfl⟩
    refine ⟨hrest.1.trans hentry.address, hrest.2.1.trans hentry.oldregs, ?_, ?_, ?_, ?_⟩
    · intro hcalling
      rw [hpc'] at hcalling
      cases hcalling
    · intro _ hstopped
      exact hmachine (hlife.symm.trans hstopped)
    · intro _
      rw [hlife]
      exact hentry.still (Or.inl hpc)
    · intro m' hm'
      exact hentry.resumed m' (hrest.2.2 ▸ hm')
  | cont hpc =>
    unfold State.cont
    split_ifs with hlife
    · refine ⟨hentry.address, hentry.oldregs, fun hcalling => ?_, fun hcontinuing => ?_,
        fun hearly => ?_, ?_⟩
      · cases hcalling
      · cases hcontinuing
      · rcases hearly with hcalling | hcontinuing
        · cases hcalling
        · cases hcontinuing
      · intro m' hm'
        obtain rfl := Option.some.inj hm'
        exact hentry.continuing hpc hlife
    · exact hentry.later _ rfl rfl rfl ⟨by simp, by simp⟩
  | pollStop stat hpc hgo => exact hentry.later _ rfl rfl rfl ⟨by simp, by simp⟩
  | pollSignal stat hpc hgo => exact hentry.later _ rfl rfl rfl ⟨by simp, by simp⟩
  | leaveStop stat hpc hend => exact hentry.later _ rfl rfl rfl ⟨by simp, by simp⟩
  | leaveSignal stat hpc hend => exact hentry.later _ rfl rfl rfl ⟨by simp, by simp⟩
  | restore hpc =>
    unfold State.restore
    split_ifs
    · exact hentry.later _ rfl rfl rfl ⟨by simp, by simp⟩
    · exact hentry.later _ rfl rfl rfl ⟨by simp, by simp⟩
  | detach hpc =>
    unfold State.detach
    split_ifs
    · exact hentry.later _ rfl rfl rfl ⟨by simp, by simp⟩
    · exact hentry.later _ rfl rfl rfl ⟨by simp, by simp⟩
  | stop code status hlife hstatus =>
    refine hentry.later _ rfl rfl rfl ⟨?_, ?_⟩
    · intro hcalling
      exact hentry.still (Or.inl hcalling) hlife
    · intro hcontinuing
      exact hentry.still (Or.inr hcontinuing) hlife
  | exit status hlife =>
    refine hentry.later _ rfl rfl rfl ⟨?_, ?_⟩
    · intro hcalling
      exact hentry.still (Or.inl hcalling) hlife
    · intro hcontinuing
      exact hentry.still (Or.inr hcontinuing) hlife
  | kill status hlife =>
    refine ⟨hentry.address, hentry.oldregs, hentry.calling, ?_, ?_, hentry.resumed⟩
    · intro _ hstopped
      cases hstopped
    · intro _ hrunning
      cases hrunning

theorem entry_reachable (g : Garbage) (m : Machine) (sym_addr : Word) (s : State)
    (h : Reachable (step g) (start m sym_addr) s) : Entry m sym_addr s :=
  reachable_invariant (entry_step g m sym_addr) h (entry_start m sym_addr)

/-- Whatever happens, the registers and the memory that main hands over at PTRACE_CONT are
as if the target had itself called the address that find_symbol gave, 0 when no library has
the symbol: below its stack pointer, and with all other registers and bytes as at the
attach. What the kernel does to an interrupted system call comes after that, and so does
the resumption by PTRACE_DETACH. -/
theorem resumed_as_call (g : Garbage) (heap : SearchHeap) (m : Machine) (s₀ s : State)
    (hmain : main heap m = some s₀) (h : Reachable (step g) s₀ s) (m' : Machine)
    (hresumed : s.resumed = some m') :
    ∃ map g', get_linkmap m.memory = some map ∧
      find_symbol heap m.memory map mtrace Globals.start = some (m'.regs.eip, g') ∧
      m' = entered m m'.regs.eip := by
  obtain ⟨map, hmap, hrest⟩ := Option.bind_eq_some_iff.1 hmain
  obtain ⟨⟨sym_addr, g'⟩, hfind, hstart⟩ := Option.bind_eq_some_iff.1 hrest
  obtain rfl := Option.some.inj hstart
  have hm' := (entry_reachable g m sym_addr s h).resumed m' hresumed
  refine ⟨map, g', hmap, ?_, ?_⟩
  · rw [hm']
    exact hfind
  · rw [hm']
    rfl

/-- A program that has PLTGOT and RELENT in its dynamic section and no library behind it. -/
def alone : Memory := ofWords
  [(0x0804801c, 52), (0x0804802c, 1), (0x08048034, PT_DYNAMIC), (0x0804803c, 0x08049000),
    (0x08049000, DT_PLTGOT), (0x08049004, 0x0804a000), (0x08049008, DT_RELENT), (0x0804900c, 8),
    (0x0804a004, 0xb7fff000), (0xb7fff008, 0x08049000)]

theorem main_alone (regs : user_regs_struct) :
    main zeroSearchHeap ⟨regs, alone⟩ = some (start ⟨regs, alone⟩ 0) := by
  have hmap : get_linkmap alone = some ⟨0, 0, 0x08049000, 0, 0⟩ := by
    have hdynamic : FirstAt (fun p => p.p_type = PT_DYNAMIC) (programHeader alone) 0 :=
      ⟨by decide, fun i hi => by omega⟩
    have hpltgot : FirstAt (fun d => d.d_tag = DT_PLTGOT)
        (dynamicEntry alone (programHeader alone 0).p_vaddr) 0 :=
      ⟨by decide, fun i hi => by omega⟩
    rw [get_linkmap_eq alone 0 0 hdynamic hpltgot]
    decide
  have hend : EndsAt alone 0x08049000 2 := by
    refine ⟨by decide, ?_⟩
    intro i hi
    interval_cases i <;> decide
  have hlookup := lookup_empty zeroHeap alone ⟨0, 0, 0x08049000, 0, 0⟩ mtrace Globals.start 2 0
    hend (by decide) (by decide) (by decide)
  have hfind : find_symbol zeroSearchHeap alone ⟨0, 0, 0x08049000, 0, 0⟩ mtrace Globals.start =
      some (0, searchGlobals alone ⟨0, 0, 0x08049000, 0, 0⟩ Globals.start 2) := by
    have hchain : Chain alone ⟨0, 0, 0x08049000, 0, 0⟩ [] := by
      show link ⟨0, 0, 0x08049000, 0, 0⟩ = none
      decide
    rw [find_symbol_eq zeroSearchHeap alone _ mtrace [] Globals.start hchain]
    show (find_symbol_in_linkmap zeroHeap alone ⟨0, 0, 0x08049000, 0, 0⟩ mtrace
      Globals.start).bind _ = _
    rw [hlookup]
    rfl
  unfold main
  simp only [ptrace_attach, hmap, hfind, Option.bind_eq_bind, Option.bind_some]
  rfl

/-- The symbol is not found, and the target is resumed at 0. -/
theorem resumed_as_call_alone :
    let regs : user_regs_struct := ⟨1, 2, 3, 4, 5, 6, 7, 8, 9, 10, 11, 12, 13, 14, 15, 4096, 17⟩
    ∃ s₀ s m', main zeroSearchHeap ⟨regs, alone⟩ = some s₀ ∧
      run (step ⟨0, 0⟩) s₀ [.call, .cont] = some s ∧ s.resumed = some m' ∧ m'.regs.eip = 0 ∧
      m' = entered ⟨regs, alone⟩ m'.regs.eip := by
  intro regs
  refine ⟨_, _, _, main_alone regs, rfl, rfl, rfl, ?_⟩
  obtain ⟨_, _, _, _, hentered⟩ := resumed_as_call ⟨0, 0⟩ zeroSearchHeap ⟨regs, alone⟩ _ _
    (main_alone regs) ⟨[.call, .cont], rfl⟩ _ rfl
  exact hentered

/-- While the loop of ptrace_call cannot be left by accident. -/
structure Hopeless (s : State) : Prop where
  undetached : s.life ≠ .detached
  news : ∀ status, s.news = some status → WIFSIGNALED status = true → s.life = .gone
  awaitSignal : ∀ stat, s.pc = .awaitSignal stat → WIFSIGNALED stat = true → s.life = .gone
  leaving : s.pc = .restoring ∨ s.pc = .detaching → s.life = .gone

theorem Hopeless.gone {s : State} (hgone : s.life = .gone) : Hopeless s where
  undetached hdetached := by
    rw [hgone] at hdetached
    cases hdetached
  news _ _ _ := hgone
  awaitSignal _ _ _ := hgone
  leaving _ := hgone

theorem Hopeless.outside {s : State} (s' : State) (h : Hopeless s) (hlife : s'.life = s.life)
    (hnews : s'.news = s.news) (hawait : ∀ stat, s'.pc ≠ .awaitSignal stat)
    (hleaving : s'.pc = .restoring ∨ s'.pc = .detaching → s.life = .gone) : Hopeless s' where
  undetached := by
    rw [hlife]
    exact h.undetached
  news status hstatus := by
    rw [hlife]
    rw [hnews] at hstatus
    exact h.news status hstatus
  awaitSignal stat hstat := absurd hstat (hawait stat)
  leaving hpc := hlife.trans (hleaving hpc)

theorem hopeless_step (g : Garbage) (hg : WIFSIGNALED g.call_stat = false) (s : State) (a : Act)
    (s' : State) (h : step g s a = some s') (hs : Hopeless s) : Hopeless s' := by
  cases step_move g s s' a h with
  | call hpc =>
    unfold State.call
    split_ifs
    · exact hs.outside _ rfl rfl (by simp) (by simp)
    · exact hs.outside _ rfl rfl (by simp) (by simp)
  | cont hpc =>
    unfold State.cont
    split_ifs with hlife
    · refine ⟨by simp, ?_, by simp, by simp⟩
      intro status hstatus hsignaled
      have hgone := hs.news status hstatus hsignaled
      rw [hlife] at hgone
      cases hgone
    · exact hs.outside _ rfl rfl (by simp) (by simp)
  | pollStop stat hpc hgo => exact ⟨hs.undetached, by simp, by simp, by simp⟩
  | pollSignal stat hpc hgo =>
    refine ⟨hs.undetached, by simp, ?_, by simp⟩
    intro stat' hstat' hsignaled
    obtain rfl := Pc.awaitSignal.inj hstat'
    rcases hnews : s.news with _ | status
    · rw [hnews, Option.getD_none] at hsignaled
      exact absurd (hgo.symm.trans hsignaled) (by simp)
    · rw [hnews, Option.getD_some] at hsignaled
      exact hs.news status hnews hsignaled
  | leaveStop stat hpc hend =>
    refine ⟨hs.undetached, hs.news, ?_, by simp⟩
    intro stat' hstat' hsignaled
    obtain rfl := Pc.awaitSignal.inj hstat'
    exact absurd (hg.symm.trans hsignaled) (by simp)
  | leaveSignal stat hpc hend =>
    exact hs.outside _ rfl rfl (by simp) fun _ => hs.awaitSignal stat hpc hend
  | restore hpc =>
    have hgone := hs.leaving (Or.inl hpc)
    unfold State.restore
    rw [if_neg (by simp [hgone])]
    exact Hopeless.gone hgone
  | detach hpc =>
    have hgone := hs.leaving (Or.inr hpc)
    unfold State.detach
    rw [if_neg (by simp [hgone])]
    exact Hopeless.gone hgone
  | stop code status hlife hstatus =>
    refine ⟨by simp, ?_, ?_, ?_⟩
    · intro status' hnews hsignaled
      obtain rfl := Option.some.inj hnews
      exact absurd ((not_signaled_of_stopped status hstatus).symm.trans hsignaled) (by simp)
    · intro stat hpc hsignaled
      have hgone := hs.awaitSignal stat hpc hsignaled
      rw [hlife] at hgone
      cases hgone
    · intro hpc
      have hgone := hs.leaving hpc
      rw [hlife] at hgone
      cases hgone
  | exit status hlife => exact Hopeless.gone rfl
  | kill status hlife => exact Hopeless.gone rfl

theorem undetached (g : Garbage) (hg : WIFSIGNALED g.call_stat = false) (m : Machine)
    (sym_addr : Word) (s : State) (h : Reachable (step g) (start m sym_addr) s) :
    s.life ≠ .detached := by
  have hinit : Hopeless (start m sym_addr) :=
    ⟨by simp [start], by simp [start], by simp [start], by simp [start]⟩
  exact (reachable_invariant (hopeless_step g hg) h hinit).undetached

/-- SIGSEGV stops the target. -/
def sigsegv : Status := 0x0b7f

/-- The tool waits until the target has stopped and takes the garbage in stat for a kill. -/
def misled (g : Garbage) : List Act :=
  [.call, .cont, .stop id sigsegv] ++ (if WIFSTOPPED g.cont_stat then [] else [.poll]) ++
    [.leave, .leave, .restore, .detach]

theorem run_misled (g : Garbage) (hg : WIFSIGNALED g.call_stat = true) (m : Machine)
    (sym_addr : Word) :
    (run (step g) (start m sym_addr) (misled g)).map State.life = some .detached := by
  have hsegv : WIFSTOPPED sigsegv = true := rfl
  unfold misled
  by_cases hstopped : WIFSTOPPED g.cont_stat = true
  · simp [run, step, start, State.call, State.cont, State.restore, State.detach, hstopped, hsegv,
      hg]
  · simp [run, step, start, State.call, State.cont, State.restore, State.detach, hstopped, hsegv,
      hg]

/-- main lets its target go on, in some order of events, if and only if the status that
ptrace_call does not initialise happens to read as a kill. Otherwise the loop behind the
call ends only when the target has been killed. -/
theorem detached_iff (g : Garbage) (m : Machine) (sym_addr : Word) :
    (∃ s, Reachable (step g) (start m sym_addr) s ∧ s.life = .detached) ↔
      WIFSIGNALED g.call_stat = true := by
  constructor
  · intro h
    obtain ⟨s, hs, hdetached⟩ := h
    by_contra hg
    exact undetached g (by simpa using hg) m sym_addr s hs hdetached
  · intro hg
    obtain ⟨s, hrun, hdetached⟩ := Option.map_eq_some_iff.1 (run_misled g hg m sym_addr)
    exact ⟨s, ⟨misled g, hrun⟩, hdetached⟩

/-- The registers are those at the attach, the memory is as the target left it when it
stopped. -/
def GivenBack (m : Machine) (s : State) : Prop :=
  s.target.regs = m.regs ∧ ∃ left, s.left = some left ∧ s.target.memory = left.memory

/-- Behind PTRACE_CONT. -/
def Pc.resumed : Pc → Bool
  | .calling => false
  | .continuing => false
  | _ => true

/-- While the loop of ptrace_cont is not left before the target has stopped. -/
structure Watched (s : State) : Prop where
  early : s.pc.resumed = false → s.life = .gone ∨ (s.life = .stopped ∧ s.news = none)
  running : s.life = .running →
    ∃ stat, s.pc = .awaitStop stat ∧ WIFSTOPPED stat = false ∧ s.news = none
  left : s.life = .stopped ∨ s.life = .detached → s.pc.resumed = true →
    ∃ left, s.left = some left ∧ s.target.memory = left.memory
  detaching : s.life = .stopped → s.pc = .detaching → s.target.regs = s.oldregs
  detached : s.life = .detached → s.pc.resumed = true ∧ s.target.regs = s.oldregs

theorem watched_start (m : Machine) (sym_addr : Word) : Watched (start m sym_addr) where
  early _ := Or.inr ⟨rfl, rfl⟩
  running hlife := by cases hlife
  left _ hpc := by cases hpc
  detaching _ hpc := by cases hpc
  detached hlife := by cases hlife

theorem Watched.gone {s : State} (hgone : s.life = .gone) : Watched s where
  early _ := Or.inl hgone
  running hlife := by simp [hgone] at hlife
  left hlife := by simp [hgone] at hlife
  detaching hlife := by simp [hgone] at hlife
  detached hlife := by simp [hgone] at hlife

theorem Watched.not_running {s : State} (h : Watched s) (hpc : ∀ stat, s.pc = .awaitStop stat →
    WIFSTOPPED stat = true) : s.life ≠ .running := by
  intro hrunning
  obtain ⟨stat, hstat, hgo, _⟩ := h.running hrunning
  exact absurd (hgo.symm.trans (hpc stat hstat)) (by simp)

/-- The tool moves on beside a target that does not run. -/
theorem Watched.advance {s : State} (s' : State) (h : Watched s) (hnot : s.life ≠ .running)
    (hlife : s'.life = s.life) (hleft : s'.left = s.left) (htarget : s'.target = s.target)
    (holdregs : s'.oldregs = s.oldregs) (hresumed : s.pc.resumed = true)
    (hpc : s'.pc.resumed = true) (hdetaching : s'.pc ≠ .detaching) : Watched s' where
  early hearly := absurd (hearly.symm.trans hpc) (by simp)
  running hrunning := absurd (hlife.symm.trans hrunning) hnot
  left hstill _ := by
    rw [hleft, htarget]
    exact h.left (hlife ▸ hstill) hresumed
  detaching _ hpc' := absurd hpc' hdetaching
  detached hdetached := by
    rw [htarget, holdregs]
    exact ⟨hpc, (h.detached (hlife.symm.trans hdetached)).2⟩

/-- The registers for the call are in place. -/
theorem watched_call (s : State) (hpc : s.pc = .calling) (hs : Watched s) : Watched s.call := by
  rcases hs.early (by simp [hpc, Pc.resumed]) with hgone | hstopped
  · apply Watched.gone
    unfold State.call
    split_ifs <;> exact hgone
  · unfold State.call
    rw [if_pos hstopped.1]
    constructor
    · exact fun _ => Or.inr hstopped
    · intro hrunning
      exact absurd (hstopped.1.symm.trans hrunning) (by simp)
    · intro _ hresumed
      cases hresumed
    · intro _ hdetaching
      cases hdetaching
    · intro hdetached
      exact absurd (hstopped.1.symm.trans hdetached) (by simp)

theorem watched_restore (s : State) (hpc : s.pc = .restoring) (hs : Watched s) :
    Watched s.restore := by
  have hnot := hs.not_running (by simp [hpc])
  have hresumed : s.pc.resumed = true := by simp [hpc, Pc.resumed]
  have hleft : s.life = .stopped ∨ s.life = .detached →
      ∃ left, s.left = some left ∧ s.target.memory = left.memory :=
    fun hstill => hs.left hstill hresumed
  unfold State.restore
  split_ifs with hlife
  · exact ⟨by simp [Pc.resumed], fun hrunning => absurd hrunning hnot, fun hstill _ => hleft hstill,
      fun _ _ => rfl, fun _ => ⟨rfl, rfl⟩⟩
  · exact ⟨by simp [Pc.resumed], fun hrunning => absurd hrunning hnot, fun hstill _ => hleft hstill,
      fun hstopped => absurd hstopped hlife,
      fun hdetached => ⟨rfl, (hs.detached hdetached).2⟩⟩

theorem watched_step (g : Garbage) (hg : WIFSTOPPED g.cont_stat = false) (s : State) (a : Act)
    (s' : State) (h : step g s a = some s') (hs : Watched s) : Watched s' := by
  cases step_move g s s' a h with
  | call hpc => exact watched_call s hpc hs
  | cont hpc =>
    unfold State.cont
    rcases hs.early (by simp [hpc, Pc.resumed]) with hgone | hstopped
    · rw [if_neg (by simp [hgone])]
      exact Watched.gone hgone
    · rw [if_pos hstopped.1]
      exact ⟨by simp [Pc.resumed], fun _ => ⟨g.cont_stat, rfl, hg, hstopped.2⟩, by simp, by simp,
        by simp⟩
  | pollStop stat hpc hgo =>
    refine ⟨by simp [Pc.resumed], ?_, ?_, by simp, ?_⟩
    · intro hrunning
      obtain ⟨_, _, _, hnone⟩ := hs.running hrunning
      refine ⟨stat, ?_, hgo, rfl⟩
      rw [hnone]
      rfl
    · intro hstill _
      exact hs.left hstill (by simp [hpc, Pc.resumed])
    · intro hdetached
      exact ⟨rfl, (hs.detached hdetached).2⟩
  | pollSignal stat hpc hgo =>
    exact hs.advance _ (hs.not_running (by simp [hpc])) rfl rfl rfl rfl (by simp [hpc, Pc.resumed])
      rfl (by simp)
  | leaveStop stat hpc hend =>
    exact hs.advance _ (hs.not_running (by simp [hpc, hend])) rfl rfl rfl rfl
      (by simp [hpc, Pc.resumed]) rfl (by simp)
  | leaveSignal stat hpc hend =>
    exact hs.advance _ (hs.not_running (by simp [hpc])) rfl rfl rfl rfl (by simp [hpc, Pc.resumed])
      rfl (by simp)
  | restore hpc => exact watched_restore s hpc hs
  | detach hpc =>
    have hnot := hs.not_running (by simp [hpc])
    have hresumed : s.pc.resumed = true := by simp [hpc, Pc.resumed]
    unfold State.detach
    split_ifs with hlife
    · refine ⟨by simp [Pc.resumed], by simp, ?_, by simp, fun _ => ⟨rfl, hs.detaching hlife hpc⟩⟩
      intro _ _
      exact hs.left (Or.inl hlife) hresumed
    · exact hs.advance _ hnot rfl rfl rfl rfl hresumed rfl (by simp)
  | stop code status hlife hstatus =>
    obtain ⟨stat, hpc, _, _⟩ := hs.running hlife
    refine ⟨?_, by simp, fun _ _ => ⟨_, rfl, rfl⟩, ?_, by simp⟩
    · intro hearly
      simp [hpc, Pc.resumed] at hearly
    · intro _ hdetaching
      exact absurd (hpc.symm.trans hdetaching) (by simp)
  | exit status hlife => exact Watched.gone rfl
  | kill status hlife => exact Watched.gone rfl

/-- Code that returns something else in eax than it was called with. -/
def returns (m : Machine) : Machine := { m with regs := { m.regs with eax := ~~~ m.regs.eax } }

theorem ne_complement (w : Word) : w ≠ ~~~ w := by
  intro h
  have hbit := congrArg (fun w : Word => w.getLsbD 0) h
  simp at hbit

/-- Both loops are left at once: the registers are written while the target still runs, and
it stops before the detach. -/
def early : List Act := [.call, .cont, .leave, .leave, .restore, .stop returns sigsegv, .detach]

theorem run_early (g : Garbage) (hstop : WIFSTOPPED g.cont_stat = true)
    (hsignal : WIFSIGNALED g.call_stat = true) (m : Machine) (sym_addr : Word) :
    (run (step g) (start m sym_addr) early).map (fun s => (s.life, s.target.regs.eax)) =
      some (.detached, ~~~ m.regs.eax) := by
  have hsegv : WIFSTOPPED sigsegv = true := rfl
  have hregs := PtraceSession.push_esp (ptrace_attach m).1 (bytesOf 0x41414140) 4
  unfold early
  simp [run, step, start, State.call, State.cont, State.restore, State.detach, hstop, hsegv,
    hsignal, ptrace_writereg, returns]
  show (ptrace_push (ptrace_attach m).1 (bytesOf 0x41414140) 4).1.regs.eax = m.regs.eax
  rw [hregs]
  rfl

/-- A target that main lets go on has its registers back, and its memory as it left it, in
every order of events, if and only if it is not both: that ptrace_cont takes what it has
not initialised for a stop, and ptrace_call for a kill. -/
theorem givenBack_iff (g : Garbage) (m : Machine) (sym_addr : Word) :
    (∀ s, Reachable (step g) (start m sym_addr) s → s.life = .detached → GivenBack m s) ↔
      ¬ (WIFSTOPPED g.cont_stat = true ∧ WIFSIGNALED g.call_stat = true) := by
  constructor
  · intro h hboth
    obtain ⟨s, hrun, heq⟩ := Option.map_eq_some_iff.1 (run_early g hboth.1 hboth.2 m sym_addr)
    obtain ⟨hdetached, heax⟩ := Prod.mk.inj heq
    have hregs := (h s ⟨early, hrun⟩ hdetached).1
    rw [hregs] at heax
    exact ne_complement _ heax
  · intro hnot s hs hdetached
    by_cases hstop : WIFSTOPPED g.cont_stat = true
    · have hsignal : WIFSIGNALED g.call_stat = false := by simpa [hstop] using hnot
      exact absurd hdetached (undetached g hsignal m sym_addr s hs)
    · have hwatched := reachable_invariant (watched_step g (by simpa using hstop)) hs
        (watched_start m sym_addr)
      obtain ⟨hresumed, hregs⟩ := hwatched.detached hdetached
      refine ⟨?_, hwatched.left (Or.inr hdetached) hresumed⟩
      rw [hregs, (entry_reachable g m sym_addr s hs).oldregs]

/-- The target stops with the execution behind it before main leaves a loop. -/
def Awaited (execution : Execution) (s : State) : Act → Prop
  | .leave => s.life ≠ .running
  | .stop code _ => code = execution.resume
  | _ => True

/-- The target when ptrace_call resumes it. -/
def readied (m : Machine) (sym_addr : Word) : Tracee :=
  let t := (ptrace_push (ptrace_attach m).1 (bytesOf 0x41414140) 4).1
  ptrace_writereg t { t.regs with eip := sym_addr }

/-- Where main is, the target is as far as the session with this one call has come. -/
def InSession (m : Machine) (sym_addr : Word) (execution : Execution) (s : State) : Prop :=
  match s.pc with
  | .calling => s.life = .stopped ∧ s.target = (ptrace_attach m).1
  | .continuing => s.life = .stopped ∧ s.target = readied m sym_addr
  | .awaitStop _ => (s.life = .running ∧ s.target = readied m sym_addr) ∨
      (s.life = .stopped ∧ s.target = call_mtrace (ptrace_attach m).1 sym_addr execution)
  | .awaitSignal _ | .restoring =>
      s.life = .stopped ∧ s.target = call_mtrace (ptrace_attach m).1 sym_addr execution
  | .detaching => s.life = .stopped ∧
      s.target = PtraceSession.session m [.callMtrace sym_addr execution]
  | .done => s.life = .detached ∧
      s.target = PtraceSession.session m [.callMtrace sym_addr execution]
  | .failed => False

theorem gone_step (g : Garbage) (s : State) (a : Act) (s' : State) (h : step g s a = some s')
    (hgone : s.life = .gone) : s'.life = .gone := by
  cases step_move g s s' a h with
  | call hpc =>
    unfold State.call
    split_ifs <;> exact hgone
  | cont hpc =>
    unfold State.cont
    rw [if_neg (by simp [hgone])]
    exact hgone
  | restore hpc =>
    unfold State.restore
    split_ifs <;> exact hgone
  | detach hpc =>
    unfold State.detach
    rw [if_neg (by simp [hgone])]
    exact hgone
  | stop code status hlife hstatus => exact absurd (hgone.symm.trans hlife) (by simp)
  | exit status hlife => rfl
  | kill status hlife => rfl
  | _ => exact hgone

/-- A step of main or of the target is one of the session, or the target is gone. -/
theorem inSession_step (g : Garbage) (m : Machine) (sym_addr : Word) (execution : Execution)
    (s : State) (a : Act) (s' : State) (h : step g s a = some s') (ha : Awaited execution s a)
    (hentry : Entry m sym_addr s) (hs : s.life = .gone ∨ InSession m sym_addr execution s) :
    s'.life = .gone ∨ InSession m sym_addr execution s' := by
  rcases hs with hgone | hs
  · exact Or.inl (gone_step g s a s' h hgone)
  cases step_move g s s' a h with
  | call hpc =>
    right
    simp only [InSession, hpc] at hs
    unfold State.call
    rw [if_pos hs.1]
    refine ⟨hs.1, ?_⟩
    simp only [readied, ← hs.2, hentry.address]
  | cont hpc =>
    right
    simp only [InSession, hpc] at hs
    unfold State.cont
    rw [if_pos hs.1]
    exact Or.inl ⟨rfl, hs.2⟩
  | pollStop stat hpc hgo =>
    right
    simp only [InSession, hpc] at hs
    exact hs
  | pollSignal stat hpc hgo =>
    right
    simp only [InSession, hpc] at hs
    exact hs
  | leaveStop stat hpc hend =>
    right
    simp only [InSession, hpc] at hs
    rcases hs with hrunning | hstopped
    · exact absurd hrunning.1 ha
    · exact hstopped
  | leaveSignal stat hpc hend =>
    right
    simp only [InSession, hpc] at hs
    exact hs
  | restore hpc =>
    right
    simp only [InSession, hpc] at hs
    unfold State.restore
    rw [if_pos hs.1]
    refine ⟨hs.1, ?_⟩
    simp only [hs.2, hentry.oldregs]
    rfl
  | detach hpc =>
    right
    simp only [InSession, hpc] at hs
    unfold State.detach
    rw [if_pos hs.1]
    exact ⟨rfl, hs.2⟩
  | stop code status hlife hstatus =>
    have hcode : code = execution.resume := ha
    subst hcode
    right
    -- only in the loop of ptrace_cont does the target run
    unfold InSession at hs ⊢
    dsimp only
    split at hs
    · simp [hlife] at hs
    · simp [hlife] at hs
    · rcases hs with hrunning | hstopped
      · right
        exact ⟨rfl, by rw [hrunning.2]; rfl⟩
      · simp [hlife] at hstopped
    all_goals simp [hlife] at hs
  | exit status hlife => exact Or.inl rfl
  | kill status hlife => exact Or.inl rfl

/-- A target that stops before the loops are left, and is let go, is in the state in which
the session with this one call leaves it. -/
theorem target_eq_session (g : Garbage) (m : Machine) (sym_addr : Word) (execution : Execution)
    (actions : List Act) (s : State) (hrun : run (step g) (start m sym_addr) actions = some s)
    (hawaited : Meets (step g) (Awaited execution) (start m sym_addr) actions)
    (hdetached : s.life = .detached) :
    s.target = PtraceSession.session m [.callMtrace sym_addr execution] := by
  have hkeep : ∀ s a s', step g s a = some s' → Awaited execution s a →
      Entry m sym_addr s ∧ (s.life = .gone ∨ InSession m sym_addr execution s) →
      Entry m sym_addr s' ∧ (s'.life = .gone ∨ InSession m sym_addr execution s') := by
    intro s a s' hstep ha h
    exact ⟨entry_step g m sym_addr s a s' hstep h.1,
      inSession_step g m sym_addr execution s a s' hstep ha h.1 h.2⟩
  have hstart : InSession m sym_addr execution (start m sym_addr) := ⟨rfl, rfl⟩
  obtain ⟨_, hgone | hs⟩ := (along_of_meets hkeep (start m sym_addr) actions
    ⟨entry_start m sym_addr, Or.inr hstart⟩ hawaited).last hrun
  · rw [hdetached] at hgone
    cases hgone
  · unfold InSession at hs
    split at hs <;> simp_all

/-- Such a run, when the garbage that ptrace_call tests reads as a kill. -/
theorem session_reached (g : Garbage) (hg : WIFSIGNALED g.call_stat = true) (m : Machine)
    (sym_addr : Word) (execution : Execution) :
    ∃ s, Reachable (step g) (start m sym_addr) s ∧ s.life = .detached ∧
      s.target = PtraceSession.session m [.callMtrace sym_addr execution] := by
  let actions : List Act := [.call, .cont, .stop execution.resume sigsegv] ++
    (if WIFSTOPPED g.cont_stat then [] else [.poll]) ++ [.leave, .leave, .restore, .detach]
  have hsegv : WIFSTOPPED sigsegv = true := rfl
  have hrun : (run (step g) (start m sym_addr) actions).map State.life = some .detached := by
    by_cases hstopped : WIFSTOPPED g.cont_stat = true
    · simp [actions, run, step, start, State.call, State.cont, State.restore, State.detach,
        hstopped, hsegv, hg]
    · simp [actions, run, step, start, State.call, State.cont, State.restore, State.detach,
        hstopped, hsegv, hg]
  have hmeets : Meets (step g) (Awaited execution) (start m sym_addr) actions := by
    by_cases hstopped : WIFSTOPPED g.cont_stat = true
    · simp [actions, Meets, step, start, State.call, State.cont, State.restore, State.detach,
        hstopped, hsegv, hg, Awaited]
    · simp [actions, Meets, step, start, State.call, State.cont, State.restore, State.detach,
        hstopped, hsegv, hg, Awaited]
  obtain ⟨s, hs, hdetached⟩ := Option.map_eq_some_iff.1 hrun
  exact ⟨s, ⟨actions, hs⟩, hdetached, target_eq_session g m sym_addr execution actions s hs hmeets
    hdetached⟩

end JvmTrace.Injection
