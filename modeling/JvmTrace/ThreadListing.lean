import JvmTrace.StackTraceCollection

/-!
Sysutil::ListThreads in src/ts/common/sysutil.cc, which reads the thread ids out of the
names in /proc/self/task. The directory is a parameter: what readdir_r gives and the
error it ends with. A name is its characters; std::stoll reads a number off its front and
throws when there is none or when it does not fit, and the number is cut down to a pid_t.
-/
namespace JvmTrace.ThreadListing

open OrderedMaps StackTraceCollection

/-- An opened directory: the names readdir_r gives, and the error after them or zero. -/
structure Dir where
  names : List (List Char)
  posix_error : Int32

def nameLt (a b : List Char) : Bool := decide (a < b)

def isDots (child : List Char) : Bool := child = ['.'] || child = ['.', '.']

/-- The children, as a std::set of names, or the text of the error. -/
def GetDirectoryContents (directory : String) : Option Dir → Except String (List (List Char))
  | none => .error ("Failed to open directory: " ++ directory)
  | some dir =>
    if dir.posix_error ≠ 0 then
      .error ("Error reading directory: " ++ toString dir.posix_error)
    else
      .ok (keysOf nameLt (dir.names.filter fun child => !isDots child))

/-- The spaces that strtoll skips. -/
def isspace (c : Char) : Bool :=
  c = ' ' || c = '\t' || c = '\n' || c = '\x0b' || c = '\x0c' || c = '\r'

/-- The sign in front of a number. -/
def sign : List Char → Bool × List Char
  | '-' :: rest => (true, rest)
  | '+' :: rest => (false, rest)
  | text => (false, text)

/-- std::stoll to the base 10, with none for its two exceptions. -/
def stoll (text : List Char) : Option ℤ :=
  let (negative, rest) := sign (text.dropWhile isspace)
  let digits := rest.takeWhile Char.isDigit
  if digits = [] then none
  else
    let value : ℤ := Nat.ofDigitChars 10 digits 0
    let number := if negative then -value else value
    if -2 ^ 63 ≤ number ∧ number < 2 ^ 63 then some number else none

/-- The call for kSelfTaskDir. -/
def ListThreads (dir : Option Dir) : List Int32 :=
  match GetDirectoryContents "/proc/self/task" dir with
  | .error _ => []
  | .ok children => children.filterMap fun child => (stoll child).map Int32.ofInt

/-- The name of a thread's directory. -/
def threadName (tid : Int32) : List Char := Nat.toDigits 10 tid.toInt.toNat

theorem compares_nameLt : Compares nameLt id := by
  intro a b
  exact decide_eq_true_iff

theorem not_isspace_of_isDigit (c : Char) (h : c.isDigit = true) : isspace c = false := by
  unfold isspace
  simp only [Bool.or_eq_false_iff, decide_eq_false_iff_not]
  refine ⟨⟨⟨⟨⟨?_, ?_⟩, ?_⟩, ?_⟩, ?_⟩, ?_⟩ <;>
  · intro heq
    rw [heq] at h
    exact absurd h (by decide)

theorem sign_of_isDigit (c : Char) (rest : List Char) (h : c.isDigit = true) :
    sign (c :: rest) = (false, c :: rest) := by
  unfold sign
  split
  · rename_i heq
    cases heq
    exact absurd h (by decide)
  · rename_i heq
    cases heq
    exact absurd h (by decide)
  · rfl

/-- A numeral is read back. -/
theorem stoll_toDigits (n : ℕ) (hn : n < 2 ^ 63) : stoll (Nat.toDigits 10 n) = some (n : ℤ) := by
  have hdigit : ∀ c ∈ Nat.toDigits 10 n, c.isDigit = true := fun c hc =>
    Nat.isDigit_of_mem_toDigits (by omega) (by omega) hc
  have hvalue := Nat.ofDigitChars_ten_toDigits (n := n)
  obtain ⟨c, rest, htext⟩ := List.exists_cons_of_ne_nil (Nat.toDigits_ne_nil (n := n) (b := 10))
  rw [htext] at hdigit hvalue ⊢
  have hc := hdigit c (List.mem_cons_self ..)
  have htake : (c :: rest).takeWhile Char.isDigit = c :: rest :=
    List.takeWhile_eq_self_iff.2 hdigit
  unfold stoll
  rw [List.dropWhile_cons_of_neg (by simp [not_isspace_of_isDigit c hc]), sign_of_isDigit c rest hc]
  dsimp only
  rw [htake, if_neg (List.cons_ne_nil _ _), hvalue]
  simp only [Bool.false_eq_true, if_false]
  rw [if_pos]
  omega

/-- A thread's name gives the thread back. -/
theorem stoll_threadName (tid : Int32) (hpos : 0 ≤ tid.toInt) :
    (stoll (threadName tid)).map Int32.ofInt = some tid := by
  have hlt := Int32.toInt_lt tid
  unfold threadName
  rw [stoll_toDigits tid.toInt.toNat (by omega), Option.map_some, Int.toNat_of_nonneg hpos,
    Int32.ofInt_toInt]

theorem isDots_threadName (tid : Int32) : isDots (threadName tid) = false := by
  have hdigit : ∀ c ∈ threadName tid, c.isDigit = true := fun c hc =>
    Nat.isDigit_of_mem_toDigits (by omega) (by omega) hc
  by_contra h
  have hdot : '.' ∈ threadName tid := by
    simp only [isDots, Bool.not_eq_false, Bool.or_eq_true, decide_eq_true_eq] at h
    rcases h with h | h <;> simp [h]
  exact absurd (hdigit '.' hdot) (by decide)

/-- What ListThreads gives, for any directory: the numbers of the names that have one,
unless reading the directory failed. -/
theorem mem_ListThreads_iff (dir : Dir) (tid : Int32) :
    tid ∈ ListThreads (some dir) ↔ dir.posix_error = 0 ∧ ∃ child ∈ dir.names,
      isDots child = false ∧ (stoll child).map Int32.ofInt = some tid := by
  unfold ListThreads GetDirectoryContents
  by_cases herror : dir.posix_error = 0
  · have hmem := (keysOf_spec compares_nameLt Function.injective_id
      (dir.names.filter fun child => !isDots child)).2
    simp [herror, List.mem_filterMap, hmem, and_assoc]
  · simp [herror]

/-- The numbers come from different names; different numbers when every name is a
thread's. -/
theorem nodup_ListThreads (dir : Dir) (h : ∀ child ∈ dir.names, isDots child = true ∨
    ∃ tid : Int32, 0 ≤ tid.toInt ∧ child = threadName tid) :
    (ListThreads (some dir)).Nodup := by
  unfold ListThreads GetDirectoryContents
  by_cases herror : dir.posix_error = 0
  · have hset := keysOf_spec compares_nameLt Function.injective_id
      (dir.names.filter fun child => !isDots child)
    have hnodup := nodup_keysOf compares_nameLt Function.injective_id
      (dir.names.filter fun child => !isDots child)
    have hname : ∀ child ∈ keysOf nameLt (dir.names.filter fun child => !isDots child),
        ∃ tid : Int32, 0 ≤ tid.toInt ∧ child = threadName tid := by
      intro child hchild
      rw [hset.2 child, List.mem_filter] at hchild
      rcases h child hchild.1 with hdots | hthread
      · simp [hdots] at hchild
      · exact hthread
    simp only [herror, ne_eq, not_true_eq_false, if_false]
    show List.Pairwise _ (List.filterMap _ _)
    rw [List.pairwise_filterMap]
    apply hnodup.imp_of_mem
    intro a b ha hb hne s hs t ht heq
    obtain ⟨tid, hpos, rfl⟩ := hname a ha
    obtain ⟨tid', hpos', rfl⟩ := hname b hb
    rw [stoll_threadName tid hpos] at hs
    rw [stoll_threadName tid' hpos'] at ht
    exact hne (by rw [Option.some.inj hs, Option.some.inj ht, heq])
  · simp [herror]

/-- A directory with one entry for each thread, in any order and beside the two dots, is
read back: every thread once, and so the set of threads that Collect signals. -/
theorem ListThreads_threads (dir : Dir) (tids : List Int32) (hpos : ∀ tid ∈ tids, 0 ≤ tid.toInt)
    (hread : dir.posix_error = 0)
    (hnames : ∀ child ∈ dir.names, isDots child = true ∨ ∃ tid ∈ tids, child = threadName tid)
    (hall : ∀ tid ∈ tids, threadName tid ∈ dir.names) :
    (ListThreads (some dir)).Nodup ∧ (∀ tid, tid ∈ ListThreads (some dir) ↔ tid ∈ tids) ∧
      (setOf (ListThreads (some dir))).Pairwise (· < ·) ∧
      ∀ tid, tid ∈ setOf (ListThreads (some dir)) ↔ tid ∈ tids := by
  have hmem : ∀ tid, tid ∈ ListThreads (some dir) ↔ tid ∈ tids := by
    intro tid
    rw [mem_ListThreads_iff]
    constructor
    · intro h
      obtain ⟨_, child, hchild, hdots, hnumber⟩ := h
      rcases hnames child hchild with hdots' | ⟨other, hother, rfl⟩
      · exact absurd (hdots.symm.trans hdots') (by simp)
      · rw [stoll_threadName other (hpos other hother)] at hnumber
        rw [← Option.some.inj hnumber]
        exact hother
    · intro h
      exact ⟨hread, threadName tid, hall tid h, isDots_threadName tid,
        stoll_threadName tid (hpos tid h)⟩
  have hset := keysOf_spec compares_tid (fun _ _ hab => Int32.toInt_inj.1 hab)
    (ListThreads (some dir))
  refine ⟨?_, hmem, ?_, ?_⟩
  · apply nodup_ListThreads
    intro child hchild
    rcases hnames child hchild with hdots | ⟨tid, htid, rfl⟩
    · exact Or.inl hdots
    · exact Or.inr ⟨tid, hpos tid htid, rfl⟩
  · exact hset.1.imp fun hless => Int32.lt_iff_toInt_lt.2 hless
  · intro tid
    rw [← hmem tid]
    exact hset.2 tid

/-- The names of threads 10 and 9 are in the order of their characters. -/
theorem ListThreads_threads_two :
    let dir : Dir := ⟨[['.'], ['9'], ['.', '.'], ['1', '0']], 0⟩
    ListThreads (some dir) = [10, 9] ∧ setOf (ListThreads (some dir)) = [9, 10] ∧
      (ListThreads (some dir)).Nodup := by
  intro dir
  refine ⟨rfl, rfl, ?_⟩
  have hnames : ∀ child ∈ dir.names, isDots child = true ∨
      ∃ tid ∈ ([9, 10] : List Int32), child = threadName tid := by
    intro child hchild
    simp only [dir, List.mem_cons, List.not_mem_nil, or_false] at hchild
    rcases hchild with rfl | rfl | rfl | rfl
    · exact Or.inl rfl
    · exact Or.inr ⟨9, by simp, rfl⟩
    · exact Or.inl rfl
    · exact Or.inr ⟨10, by simp, rfl⟩
  have hall : ∀ tid ∈ ([9, 10] : List Int32), threadName tid ∈ dir.names := by
    intro tid htid
    simp only [List.mem_cons, List.not_mem_nil, or_false] at htid
    rcases htid with rfl | rfl
    · exact List.mem_of_elem_eq_true rfl
    · exact List.mem_of_elem_eq_true rfl
  have hpos : ∀ tid ∈ ([9, 10] : List Int32), 0 ≤ tid.toInt := by
    intro tid htid
    simp only [List.mem_cons, List.not_mem_nil, or_false] at htid
    rcases htid with rfl | rfl <;> decide
  exact (ListThreads_threads dir [9, 10] hpos rfl hnames hall).1

end JvmTrace.ThreadListing
