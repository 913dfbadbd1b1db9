import JvmTrace.OrderedMaps

/-!
The last step of StackTraceCollector::Collect in src/ts/signal_handler.cc, with the
forms that the threads have filled in before it and ToPrettyString after it. The forms
are grouped in a std::map under a comparator written by hand; the results are its
entries in order. Symbolize is a parameter: a name for an address, or a failure.
Comparing two stacks compares their depths and then their addresses as lists.
-/
namespace JvmTrace.StackTraceCollector

open OrderedMaps

def kMaxDepth : ℕ := 100

/-- The addresses from depth on are whatever was in memory. -/
structure ThreadStack where
  tid : Int32
  address : ℕ → Int64
  depth : ℕ
  depth_le : depth ≤ kMaxDepth

structure StackTraceForm where
  ack_fd : Int32
  stack : ThreadStack

/-- A form as it is sent to a thread, before the thread fills it in. -/
def newForm (tid ack_fd : Int32) (memory : ℕ → Int64) : StackTraceForm :=
  ⟨ack_fd, ⟨tid, memory, 0, Nat.zero_le _⟩⟩

def AddAddress (form : StackTraceForm) (address : Int64) : StackTraceForm × Bool :=
  if h : form.stack.depth ≥ kMaxDepth then (form, false)
  else
    ({ form with stack :=
        { tid := form.stack.tid
          address := Function.update form.stack.address form.stack.depth address
          depth := form.stack.depth + 1
          depth_le := by omega } }, true)

/-- The loop of InternalHandler: for each frame the instruction pointer, or none when it
could not be read. -/
def fillForm (form : StackTraceForm) : List (Option Int64) → StackTraceForm
  | [] => form
  | none :: frames => fillForm form frames
  | some ip :: frames =>
    if (AddAddress form ip).2 then fillForm (AddAddress form ip).1 frames
    else (AddAddress form ip).1

/-- The addresses that count. -/
def trace (stack : ThreadStack) : List Int64 :=
  (List.range stack.depth).map stack.address

/-- While there is room, an address is entered behind the others. -/
theorem addAddress_room (form : StackTraceForm) (address : Int64)
    (h : form.stack.depth < kMaxDepth) :
    (AddAddress form address).2 = true ∧
      trace (AddAddress form address).1.stack = trace form.stack ++ [address] ∧
      (AddAddress form address).1.stack.depth = form.stack.depth + 1 ∧
      (AddAddress form address).1.stack.tid = form.stack.tid := by
  unfold AddAddress
  rw [dif_neg (not_le.2 h)]
  refine ⟨rfl, ?_, rfl, rfl⟩
  show (List.range (form.stack.depth + 1)).map
    (Function.update form.stack.address form.stack.depth address) = _
  rw [List.range_succ, List.map_append, List.map_singleton, Function.update_self]
  congr 1
  apply List.map_congr_left
  intro i hi
  exact Function.update_of_ne (List.mem_range.1 hi).ne _ _

/-- A filled form has the first addresses that could be read, at most kMaxDepth in all. -/
theorem trace_fillForm (form : StackTraceForm) (frames : List (Option Int64)) :
    trace (fillForm form frames).stack =
        trace form.stack ++ frames.reduceOption.take (kMaxDepth - form.stack.depth) ∧
      (fillForm form frames).stack.tid = form.stack.tid := by
  induction frames generalizing form with
  | nil => simp [fillForm]
  | cons frame frames ih =>
    rcases frame with _ | ip
    · exact ih form
    · unfold fillForm
      by_cases hfull : kMaxDepth ≤ form.stack.depth
      · have hadd : AddAddress form ip = (form, false) := dif_pos hfull
        simp [hadd, Nat.sub_eq_zero_of_le hfull]
      · obtain ⟨hok, hnew, hdepth, htid⟩ := addAddress_room form ip (not_le.1 hfull)
        obtain ⟨htrace, htid'⟩ := ih (AddAddress form ip).1
        rw [if_pos hok]
        refine ⟨?_, htid'.trans htid⟩
        have hroom : kMaxDepth - form.stack.depth = kMaxDepth - (form.stack.depth + 1) + 1 := by
          omega
        rw [htrace, hdepth, hnew, hroom, List.reduceOption_cons_of_some, List.take_succ_cons,
          List.append_assoc]
        rfl

/-- The loop of the comparator from index i on, for n more indices. -/
def lessFrom (a b : ℕ → Int64) (i : ℕ) : ℕ → Bool
  | 0 => false
  | n + 1 => if a i ≠ b i then decide (a i < b i) else lessFrom a b (i + 1) n

def StackComparator (a b : StackTraceForm) : Bool :=
  if a.stack.depth ≠ b.stack.depth then decide (a.stack.depth < b.stack.depth)
  else lessFrom a.stack.address b.stack.address 0 a.stack.depth

/-- What the comparator compares: depths first, then the addresses as signed numbers. -/
def rank (form : StackTraceForm) : ℕ ×ₗ List ℤ :=
  toLex (form.stack.depth, (trace form.stack).map Int64.toInt)

theorem lessFrom_iff (a b : ℕ → Int64) (i n : ℕ) :
    lessFrom a b i n = true ↔
      (List.range' i n).map (fun j => (a j).toInt) <
        (List.range' i n).map (fun j => (b j).toInt) := by
  induction n generalizing i with
  | zero => simp [lessFrom]
  | succ n ih =>
    rw [List.range'_succ, List.map_cons, List.map_cons, List.cons_lt_cons_iff]
    unfold lessFrom
    split_ifs with hne
    · rw [decide_eq_true_eq, Int64.lt_iff_toInt_lt, Int64.toInt_inj]
      tauto
    · have heq : a i = b i := not_not.1 hne
      rw [ih, heq]
      simp

theorem compares_rank : Compares StackComparator rank := by
  intro a b
  unfold StackComparator rank
  rw [Prod.Lex.toLex_lt_toLex]
  split_ifs with hdepth
  · rw [decide_eq_true_eq]
    tauto
  · have heq : a.stack.depth = b.stack.depth := not_not.1 hdepth
    rw [lessFrom_iff]
    unfold trace
    rw [List.range_eq_range', List.range_eq_range', List.map_map, List.map_map, heq]
    simp [Function.comp_def]

/-- Two stacks of the same depth and with the same addresses. -/
def SameStack (a b : ThreadStack) : Prop :=
  a.depth = b.depth ∧ ∀ i < a.depth, a.address i = b.address i

theorem rank_eq_iff (a b : StackTraceForm) : rank a = rank b ↔ SameStack a.stack b.stack := by
  unfold rank SameStack trace
  rw [toLex_inj, Prod.mk.injEq, List.map_map, List.map_map]
  apply and_congr_right
  intro hdepth
  rw [← hdepth, List.map_inj_left]
  simp [Int64.toInt_inj]

/-- One form entered in unique_traces. -/
def enterForm (traces : List (StackTraceForm × List Int32)) (e : StackTraceForm) :
    List (StackTraceForm × List Int32) :=
  match find StackComparator e traces with
  | none => alter StackComparator [] (fun tids => tids ++ [e.stack.tid]) e traces
  | some _ => modify StackComparator (fun tids => tids ++ [e.stack.tid]) e traces

def unique_traces (slot : List StackTraceForm) : List (StackTraceForm × List Int32) :=
  slot.foldl enterForm []

structure Result where
  trace : List (Int64 × String)
  tids : List Int32

def resultOf (Symbolize : Int64 → Option String) (e : StackTraceForm × List Int32) : Result where
  trace := (List.range e.1.stack.depth).map fun i =>
    (e.1.stack.address i, (Symbolize (e.1.stack.address i)).getD "(unknown)")
  tids := e.2

/-- What Collect returns for the forms in its slots. -/
def collectResults (Symbolize : Int64 → Option String) (slot : List StackTraceForm) :
    List Result :=
  (unique_traces slot).map (resultOf Symbolize)

/-- The line for one address: setw(16) over the number in hexadecimal. -/
def addressLine (elem : Int64 × String) : String :=
  String.ofList (List.leftpad 16 ' '
    ('0' :: 'x' :: Nat.toDigits 16 elem.1.toUInt64.toNat)) ++ " : " ++ elem.2 ++ "\n"

/-- One round of ToPrettyString on its text and its vector of thread ids. -/
def printResult (s : String × List Int32) (e : Result) : String × List Int32 :=
  match e.tids.getLast? with
  | none => (s.1 ++ "No Threads\n", s.2)
  | some last =>
    (s.1 ++ "Threads: " ++ String.join (e.tids.dropLast.map fun tid => toString tid ++ ", ") ++
      toString last ++ "\n" ++ "Stack trace:\n" ++ String.join (e.trace.map addressLine) ++ "\n",
      s.2 ++ e.tids)

/-- The text, and what backtrace_cb_ returned if it is set. -/
def ToPrettyString {α : Type} (backtrace_cb_ : Option (List Int32 → α)) (r : List Result) :
    String × Option α :=
  ((r.foldl printResult ("", [])).1,
    backtrace_cb_.map fun cb => cb (r.foldl printResult ("", [])).2)

/-- Both ways of entering a form do the same. -/
theorem enterForm_eq (traces : List (StackTraceForm × List Int32)) (e : StackTraceForm) :
    enterForm traces e = alter StackComparator [] (fun tids => tids ++ [e.stack.tid]) e traces := by
  unfold enterForm
  rcases hfind : find StackComparator e traces with _ | tids
  · rfl
  · exact modify_eq_alter StackComparator [] _ e traces tids hfind

theorem unique_traces_append (slot : List StackTraceForm) (e : StackTraceForm) :
    unique_traces (slot ++ [e]) =
      alter StackComparator [] (fun tids => tids ++ [e.stack.tid]) e (unique_traces slot) := by
  unfold unique_traces
  rw [List.foldl_append, List.foldl_cons, List.foldl_nil, enterForm_eq]

theorem groups_unique_traces (slot : List StackTraceForm) :
    Groups rank (fun form => form.stack.tid) slot (unique_traces slot) := by
  induction slot using List.reverseRecOn with
  | nil => exact groups_nil _
  | append_singleton slot e ih =>
    rw [unique_traces_append]
    exact ih.append compares_rank _ slot _ e

theorem flatMap_unique_traces (slot : List StackTraceForm) :
    ((unique_traces slot).flatMap Prod.snd).Perm (slot.map fun form => form.stack.tid) := by
  induction slot using List.reverseRecOn with
  | nil => exact List.Perm.refl _
  | append_singleton slot e ih =>
    rw [unique_traces_append, List.map_append]
    exact (flatMap_alter_append StackComparator e e.stack.tid _).trans (ih.append_right _)

/-- The vector of ToPrettyString holds the thread ids of all results. -/
theorem printResult_tids (r : List Result) (s : String × List Int32) :
    (r.foldl printResult s).2 = s.2 ++ r.flatMap Result.tids := by
  induction r generalizing s with
  | nil => simp
  | cons e r ih =>
    rw [List.foldl_cons, ih, List.flatMap_cons, ← List.append_assoc]
    congr 1
    unfold printResult
    rcases hlast : e.tids.getLast? with _ | last
    · simp [List.getLast?_eq_none_iff.1 hlast]
    · rfl

theorem flatMap_collectResults (Symbolize : Int64 → Option String) (slot : List StackTraceForm) :
    (collectResults Symbolize slot).flatMap Result.tids =
      (unique_traces slot).flatMap Prod.snd := by
  unfold collectResults
  rw [List.flatMap_map]
  rfl

/-- A thread id of results without a repeated one is at one index only. -/
theorem existsUnique_index (r : List Result) (hnodup : (r.flatMap Result.tids).Nodup)
    (tid : Int32) (h : tid ∈ r.flatMap Result.tids) :
    ∃! i : ℕ, ∃ e : Result, r[i]? = some e ∧ tid ∈ e.tids := by
  obtain ⟨e, he, htid⟩ := List.mem_flatMap.1 h
  obtain ⟨i, hi⟩ := List.mem_iff_getElem?.1 he
  have hdisjoint := (List.nodup_flatMap.1 hnodup).2
  refine ⟨i, ⟨e, hi, htid⟩, ?_⟩
  intro j h
  obtain ⟨d, hj, hd⟩ := h
  obtain ⟨hilt, hie⟩ := List.getElem?_eq_some_iff.1 hi
  obtain ⟨hjlt, hjd⟩ := List.getElem?_eq_some_iff.1 hj
  by_contra hne
  rcases Nat.lt_or_gt_of_ne hne with hlt | hlt
  · have hapart := List.pairwise_iff_getElem.1 hdisjoint j i hjlt hilt hlt
    rw [hie, hjd] at hapart
    exact hapart hd htid
  · have hapart := List.pairwise_iff_getElem.1 hdisjoint i j hilt hjlt hlt
    rw [hie, hjd] at hapart
    exact hapart htid hd

/-- For forms of different threads: every thread is in one result, two threads are in the
same result if and only if their stacks are the same, and the callback gets every thread
once. -/
theorem collect_and_callback (Symbolize : Int64 → Option String) (slot : List StackTraceForm)
    (htids : (slot.map fun form => form.stack.tid).Nodup) :
    (∀ form ∈ slot, ∃! i : ℕ, ∃ r : Result, (collectResults Symbolize slot)[i]? = some r ∧
      form.stack.tid ∈ r.tids) ∧
    (∀ a ∈ slot, ∀ b ∈ slot,
      (∃ r ∈ collectResults Symbolize slot, a.stack.tid ∈ r.tids ∧ b.stack.tid ∈ r.tids) ↔
        SameStack a.stack b.stack) ∧
    ∃ tids : List Int32, tids.Perm (slot.map fun form => form.stack.tid) ∧ tids.Nodup ∧
      ∀ {α : Type} (backtrace_cb_ : List Int32 → α),
        (ToPrettyString (some backtrace_cb_) (collectResults Symbolize slot)).2 =
          some (backtrace_cb_ tids) := by
  have hperm := flatMap_unique_traces slot
  rw [← flatMap_collectResults Symbolize] at hperm
  have hnodup := hperm.nodup_iff.2 htids
  refine ⟨?_, ?_, (collectResults Symbolize slot).flatMap Result.tids, hperm, hnodup, ?_⟩
  · intro form hform
    apply existsUnique_index _ hnodup
    exact hperm.mem_iff.2 (List.mem_map.2 ⟨form, hform, rfl⟩)
  · intro a ha b hb
    rw [← rank_eq_iff, ← (groups_unique_traces slot).together_iff _ slot _ htids a b ha hb]
    unfold collectResults
    simp only [List.mem_map, exists_exists_and_eq_and]
    rfl
  · intro α backtrace_cb_
    unfold ToPrettyString
    rw [printResult_tids, List.nil_append]
    rfl

/-- Threads 7 and 9 at one place, thread 8 one frame above it. -/
def threeForms : List StackTraceForm :=
  [fillForm (newForm 7 5 fun _ => 0) [some 16, none, some 32],
    fillForm (newForm 8 5 fun _ => 3) [some 32],
    fillForm (newForm 9 5 fun _ => -1) [some 16, some 32]]

/-- The junk behind the two equal stacks differs and does not count. -/
theorem collect_and_callback_threeForms :
    (∃ r ∈ collectResults (fun _ => none) threeForms, (7 : Int32) ∈ r.tids ∧ (9 : Int32) ∈ r.tids) ∧
      ¬ ∃ r ∈ collectResults (fun _ => none) threeForms,
        (7 : Int32) ∈ r.tids ∧ (8 : Int32) ∈ r.tids := by
  obtain ⟨_, htogether, _⟩ := collect_and_callback (fun _ => none) threeForms (by decide)
  refine ⟨(htogether threeForms[0] (by simp [threeForms]) threeForms[2]
    (by simp [threeForms])).2 ⟨rfl, by decide⟩, ?_⟩
  intro h
  have hsame := (htogether threeForms[0] (by simp [threeForms]) threeForms[1]
    (by simp [threeForms])).1 h
  exact absurd hsame.1 (by decide)

/-- A result shows the stack that its threads have. -/
theorem trace_of_tid_mem (Symbolize : Int64 → Option String) (slot : List StackTraceForm)
    (htids : (slot.map fun form => form.stack.tid).Nodup) (form : StackTraceForm)
    (hform : form ∈ slot) (r : Result) (hr : r ∈ collectResults Symbolize slot)
    (htid : form.stack.tid ∈ r.tids) : r.trace.map Prod.fst = trace form.stack := by
  obtain ⟨e, he, rfl⟩ := List.mem_map.1 hr
  have hrank := ((groups_unique_traces slot).tag_mem_iff _ slot _ htids form hform e he).1 htid
  obtain ⟨hdepth, haddress⟩ := (rank_eq_iff form e.1).1 hrank
  unfold resultOf trace
  rw [List.map_map, ← hdepth]
  apply List.map_congr_left
  intro i hi
  exact (haddress i (List.mem_range.1 hi)).symm

end JvmTrace.StackTraceCollector
