import AnotherPs4.Hle.GuestMemory
import AnotherPs4.Rust.Utf8
import AnotherPs4.Rust.Word

/-!
# Memory and string functions

The exports of the C library that work on guest memory. The copying loop of
`strcpy` and `strcat` reads each byte after it has written those before it, so a
destination shortly behind the start of the source makes it read its own output.
-/

namespace AnotherPs4

open Rust

/-! ### The functions -/

/-- `ub_checks::maybe_is_nonoverlapping`. -/
def maybeIsNonoverlapping (src dst n : Nat) : Bool := n ≤ src - dst ∨ n ≤ dst - src

/-- Of overlapping ranges a `dev` build makes a check of `ptr::copy_nonoverlapping`. -/
def copyNonoverlapping (p : Profile) (ram : Ram) (src dst n : Nat) : Outcome ExportStop Ram := do
  p.debugCheck .overlapping (maybeIsNonoverlapping src dst n)
  return ram.write dst (ram.readBytes src n)

def memcpy (p : Profile) (ram : Ram) (dst src n : Nat) : Outcome ExportStop (Nat × Ram) :=
  if dst ≠ 0 ∧ src ≠ 0 ∧ n > 0 then do
    return (dst, ← copyNonoverlapping p ram src dst n)
  else return (dst, ram)

def memset (ram : Ram) (dst val n : Nat) : Nat × Ram :=
  if dst ≠ 0 ∧ n > 0 then (dst, ram.write dst (List.replicate n (UInt8.ofNat val))) else (dst, ram)

def safetyLimit : Nat := 0x100000

/-- The loop of `strcpy` and the second loop of `strcat`, from an offset on. -/
def copyFrom (dst src i : Nat) (ram : Ram) : Ram :=
  let c := ram.stream src i
  let ram := ram.write ((dst + i) % 2 ^ 64) [c]
  if c = 0 then ram
  else if i + 1 > safetyLimit then ram
  else copyFrom dst src (i + 1) ram
termination_by safetyLimit - i

def strcpy (ram : Ram) (dst src : Nat) : Nat × Ram :=
  if dst ≠ 0 ∧ src ≠ 0 then (dst, copyFrom dst src 0 ram) else (dst, ram)

/-- The first loop of `strcat`, `none` if it gives up. -/
def endFrom (ram : Ram) (dst i : Nat) : Option Nat :=
  if ram.stream dst i = 0 then some i
  else if i + 1 > safetyLimit then none
  else endFrom ram dst (i + 1)
termination_by safetyLimit - i

def strcat (ram : Ram) (dst src : Nat) : Nat × Ram :=
  if dst ≠ 0 ∧ src ≠ 0 then
    match endFrom ram dst 0 with
    | some i => (dst, copyFrom (dst + i) src 0 ram)
    | none => (dst, ram)
  else (dst, ram)

def strlen (ram : Ram) (s : Nat) : Outcome ExportStop Nat :=
  if s = 0 then .ok 0 else do return (← ram.cstr s).length

/-- `-1i64 as u64` for a lesser text. -/
def orderResult (a b : List UInt8) : Nat :=
  if a = b then 0 else if a < b then unsigned 64 (-1) else 1

def strcmp (ram : Ram) (s1 s2 : Nat) : Outcome ExportStop Nat :=
  if s1 = 0 ∨ s2 = 0 then .ok (if s1 = s2 then 0 else 1)
  else do return orderResult (← ram.cstr s1) (← ram.cstr s2)

/-- The result of the host's `memcmp` is an `i32`. -/
def memcmp (hostMemcmp : List UInt8 → List UInt8 → Int) (ram : Ram) (s1 s2 n : Nat) : Nat :=
  if n = 0 then 0
  else if s1 = 0 ∨ s2 = 0 then 1
  else unsigned 64 (hostMemcmp (ram.readBytes s1 n) (ram.readBytes s2 n))

def containsText (text pattern : String) : Bool :=
  text.toList.tails.any fun rest => pattern.toList.isPrefixOf rest

/-- The look into the `va_list`. The argument is only logged, and reading it ends at the
latest at the NUL behind the copy. -/
def logStringArg (p : Profile) (ram : Ram) (fmt : List UInt8) (vaList : Nat) :
    Outcome ExportStop Unit :=
  if containsText (fromUtf8Lossy fmt) "%s" ∧ vaList ≠ 0 then do
    let gpOffset := leNat (ram.readBytes vaList 4)
    let regSaveArea := leNat (ram.readBytes (vaList + 16) 8)
    if gpOffset ≤ 40 ∧ regSaveArea ≠ 0 then
      let _ ← p.add 64 regSaveArea gpOffset
      return ()
    else return ()
  else return ()

def vsnprintf (p : Profile) (ram : Ram) (buf size fmt vaList : Nat) :
    Outcome ExportStop (Nat × Ram) :=
  if buf = 0 ∨ size = 0 then return (0, ram)
  else if fmt ≠ 0 then do
    let fmtBytes ← ram.cstr fmt
    let copyLen := min fmtBytes.length (size - 1)
    let ram ← copyNonoverlapping p ram fmt buf copyLen
    let ram := ram.write ((buf + copyLen) % 2 ^ 64) [0]
    -- The format is read again where it stood, the copy may have changed it.
    logStringArg p ram (ram.readBytes fmt fmtBytes.length) vaList
    return (copyLen, ram)
  else return (0, ram.write buf [0])

/-! ### The copying loop -/

/-- How far the destination is ahead of the source. -/
def gap (src dst : Nat) : Nat := (dst + 2 ^ 64 - src) % 2 ^ 64

/-- What the loop reads. From the gap on it is its own output. -/
def copied (ram : Ram) (src dst : Nat) : Nat → UInt8 := fun i => ram.stream src (i % gap src dst)

section Copy

variable {ram : Ram} {dst src : Nat} (dstWord : dst < 2 ^ 64) (srcWord : src < 2 ^ 64)

theorem copied_of_lt {i : Nat} (before : gap src dst = 0 ∨ i < gap src dst) :
    copied ram src dst i = ram.stream src i := by
  rcases before with zero | before
  · rw [copied, zero, Nat.mod_zero]
  · rw [copied, Nat.mod_eq_of_lt before]

include dstWord

theorem write_copied {i : Nat} (small : i < 2 ^ 64) :
    (ram.write dst (firstBytes (copied ram src dst) i)).write ((dst + i) % 2 ^ 64)
      [copied ram src dst i] = ram.write dst (firstBytes (copied ram src dst) (i + 1)) := by
  have written := @Ram.write_append ram dst (firstBytes (copied ram src dst) i)
    [copied ram src dst i] dstWord (by simpa using small)
  rwa [length_firstBytes, ← firstBytes_succ] at written

include srcWord

/-- The next byte to read is the one that the closed form says. -/
theorem stream_copied {i : Nat} (small : i < 2 ^ 64) :
    (ram.write dst (firstBytes (copied ram src dst) i)).stream src i = copied ram src dst i := by
  have ahead : gap src dst < 2 ^ 64 := Nat.mod_lt _ (Nat.two_pow_pos 64)
  rw [Ram.stream, Ram.write]
  by_cases own : 0 < gap src dst ∧ gap src dst ≤ i
  · have offset : ((src + i) % 2 ^ 64 + 2 ^ 64 - dst) % 2 ^ 64 = i - gap src dst := by
      unfold gap at *
      omega
    have inside : i - gap src dst < (firstBytes (copied ram src dst) i).length := by
      rw [length_firstBytes]
      omega
    rw [offset, List.getElem?_eq_getElem inside, Option.getD_some, getElem_firstBytes, copied,
      copied, Nat.mod_eq_sub_mod own.2]
  · have beyond : i ≤ ((src + i) % 2 ^ 64 + 2 ^ 64 - dst) % 2 ^ 64 := by
      unfold gap at *
      omega
    rw [List.getElem?_eq_none (by simpa using beyond), Option.getD_none,
      copied_of_lt (by omega)]
    rfl

/-- From an offset on, the loop writes up to the first NUL it reads. -/
theorem copyFrom_eq {i : Nat} (inside : i ≤ safetyLimit) :
    copyFrom dst src i (ram.write dst (firstBytes (copied ram src dst) i)) =
      ram.write dst (firstBytes (copied ram src dst) i ++
        throughNul (firstBytes (fun k => copied ram src dst (i + k)) (safetyLimit + 1 - i))) := by
  have limit : safetyLimit < 2 ^ 64 := by decide
  have small : i < 2 ^ 64 := by omega
  rw [copyFrom]
  simp only [stream_copied dstWord srcWord small, write_copied dstWord small]
  induction left : safetyLimit - i generalizing i with
  | zero =>
    have last : safetyLimit + 1 - i = 1 := by omega
    rw [if_pos (show i + 1 > safetyLimit by omega), ite_self, last, firstBytes_one,
      throughNul_singleton, firstBytes_succ, Nat.add_zero]
  | succ left inductionHypothesis =>
    have more : safetyLimit + 1 - i = (safetyLimit + 1 - (i + 1)) + 1 := by omega
    have next : i + 1 < 2 ^ 64 := by omega
    rw [more, firstBytes_succ' (fun k => copied ram src dst (i + k)), throughNul]
    simp only [Nat.add_zero]
    by_cases nul : copied ram src dst i = 0
    · rw [if_pos nul, if_pos nul, ← firstBytes_succ]
    · rw [if_neg nul, if_neg nul, if_neg (by omega), copyFrom]
      simp only [stream_copied dstWord srcWord next, write_copied dstWord next]
      rw [inductionHypothesis (by omega) next (by omega), firstBytes_succ, List.append_assoc]
      simp only [List.singleton_append, Nat.add_assoc, Nat.add_comm 1]

theorem copyFrom_zero : copyFrom dst src 0 ram =
    ram.write dst (throughNul (firstBytes (copied ram src dst) (safetyLimit + 1))) := by
  have whole := @copyFrom_eq ram dst src dstWord srcWord 0 (Nat.zero_le safetyLimit)
  have reads : (fun k => copied ram src dst (0 + k)) = copied ram src dst :=
    funext fun k => congrArg _ (Nat.zero_add k)
  rwa [firstBytes_zero, Ram.write_nil, List.nil_append, Nat.sub_zero, reads] at whole

end Copy

/-- The copying loop does not come across its own output before the end of the text. -/
def CopyApart (src dst : Nat) (text : List UInt8) : Prop :=
  gap src dst = 0 ∨ text.length < gap src dst

/-- What the copying loop makes of a text. A text that ends behind the limit is
cut, and one that runs into its copy is repeated up to the limit. Neither copy
has a NUL. -/
structure CopiesText (ram : Ram) (dst src : Nat) (text : List UInt8) (after : Ram) : Prop where
  whole : CopyApart src dst text → text.length ≤ safetyLimit → after = ram.write dst (text ++ [0])
  cut : CopyApart src dst text → safetyLimit < text.length →
    after = ram.write dst (text.take (safetyLimit + 1))
  overrun : ¬ CopyApart src dst text →
    (∀ i, text[i % gap src dst]?.getD 0 ≠ 0) ∧
    after = ram.write dst (firstBytes (fun i => text[i % gap src dst]?.getD 0) (safetyLimit + 1))

section Strings

variable {ram : Ram} {dst src : Nat} {text : List UInt8}

/-- A text whose end is behind the limit, as far as the loop reads it. -/
theorem firstBytes_of_long (holds : HoldsText (ram.stream src) text) {n : Nat}
    (long : n ≤ text.length) : firstBytes (ram.stream src) n = text.take n := by
  apply List.ext_getElem (by simpa using long)
  intro k inside _
  rw [getElem_firstBytes, List.getElem_take]
  exact holds.bytes k (by simp at inside; omega)

theorem copyFrom_copies (dstWord : dst < 2 ^ 64) (srcWord : src < 2 ^ 64)
    (holds : HoldsText (ram.stream src) text) :
    CopiesText ram dst src text (copyFrom dst src 0 ram) := by
  rw [copyFrom_zero dstWord srcWord]
  have reads : CopyApart src dst text → ∀ k ≤ text.length,
      copied ram src dst k = ram.stream src k :=
    fun apart k inside => copied_of_lt (apart.imp_right fun before => by omega)
  refine ⟨fun apart short => ?_, fun apart long => ?_, fun meets => ?_⟩
  · rw [(holds.congr (reads apart)).throughNul (Nat.lt_succ_of_le short)]
  · have same : firstBytes (copied ram src dst) (safetyLimit + 1) =
        text.take (safetyLimit + 1) := by
      rw [← firstBytes_of_long holds long]
      exact firstBytes_congr fun k inside => reads apart k (by omega)
    have nulFree : 0 ∉ text.take (safetyLimit + 1) :=
      fun member => holds.nulFree (List.mem_of_mem_take member)
    rw [same, throughNul_of_nulFree nulFree]
  · obtain ⟨ahead, within⟩ := not_or.mp meets
    have inside : ∀ i, i % gap src dst < text.length := fun i =>
      lt_of_lt_of_le (Nat.mod_lt _ (Nat.pos_of_ne_zero ahead)) (not_lt.mp within)
    have same : ∀ i, copied ram src dst i = text[i % gap src dst]?.getD 0 := fun i => by
      rw [List.getElem?_eq_getElem (inside i), Option.getD_some]
      exact holds.bytes _ (inside i)
    have nonzero : ∀ i, text[i % gap src dst]?.getD 0 ≠ 0 := fun i => by
      rw [← same i]
      exact holds.ne_zero (inside i)
    have nulFree : 0 ∉ firstBytes (copied ram src dst) (safetyLimit + 1) := fun member => by
      obtain ⟨i, -, zero⟩ := List.mem_map.mp member
      exact nonzero i (same i ▸ zero)
    refine ⟨nonzero, ?_⟩
    rw [throughNul_of_nulFree nulFree, firstBytes_congr fun i _ => same i]

/-- `strcpy` on every memory, every text in it and every destination. -/
theorem strcpy_copies (dstWord : dst < 2 ^ 64) (srcWord : src < 2 ^ 64) (dstNotNull : dst ≠ 0)
    (srcNotNull : src ≠ 0) (holds : HoldsText (ram.stream src) text) :
    (strcpy ram dst src).1 = dst ∧ CopiesText ram dst src text (strcpy ram dst src).2 := by
  rw [strcpy, if_pos ⟨dstNotNull, srcNotNull⟩]
  exact ⟨rfl, copyFrom_copies dstWord srcWord holds⟩

theorem endFrom_of_holds {i : Nat} (holds : HoldsText (fun k => ram.stream dst (i + k)) text)
    (short : i + text.length ≤ safetyLimit) : endFrom ram dst i = some (i + text.length) := by
  induction text generalizing i with
  | nil =>
    have ended : ram.stream dst i = 0 := holds.ended
    rw [endFrom, if_pos ended]
    rfl
  | cons byte rest inductionHypothesis =>
    obtain ⟨first, nonzero, later⟩ := HoldsText.cons_iff.mp holds
    rw [List.length_cons] at short ⊢
    rw [endFrom, if_neg (show ram.stream dst i ≠ 0 from first ▸ nonzero), if_neg (by omega)]
    have shifted : HoldsText (fun k => ram.stream dst (i + 1 + k)) rest := by
      simpa only [Nat.add_assoc, Nat.add_comm 1] using later
    rw [inductionHypothesis shifted (by omega)]
    congr 1
    omega

theorem copyFrom_mod (dst src i : Nat) (ram : Ram) :
    copyFrom (dst % 2 ^ 64) src i ram = copyFrom dst src i ram := by
  induction left : safetyLimit - i generalizing i ram with
  | zero =>
    rw [copyFrom, copyFrom.eq_def dst]
    simp only [Nat.mod_add_mod, if_pos (show i + 1 > safetyLimit by omega)]
  | succ left inductionHypothesis =>
    rw [copyFrom, copyFrom.eq_def dst]
    simp only [Nat.mod_add_mod, inductionHypothesis (i + 1) _ (by omega)]

theorem Ram.holdsText_append {first second : List UInt8}
    (holds : HoldsText (ram.stream dst) first) (nulFree : 0 ∉ second)
    (short : first.length + second.length < 2 ^ 64) :
    HoldsText ((ram.write ((dst + first.length) % 2 ^ 64) (second ++ [0])).stream dst)
      (first ++ second) := by
  have behind : ∀ k, (ram.write ((dst + first.length) % 2 ^ 64) (second ++ [0])).stream dst
      (first.length + k) =
      (ram.write ((dst + first.length) % 2 ^ 64) (second ++ [0])).stream
        ((dst + first.length) % 2 ^ 64) k := by
    intro k
    rw [Ram.stream_mod, Ram.stream, Ram.stream, Nat.add_assoc]
  have written := @Ram.holdsText_write ram _ (Nat.mod_lt (dst + first.length)
    (Nat.two_pow_pos 64)) second nulFree (by omega)
  refine ⟨fun k inside => ?_, ?_, by simp [holds.nulFree, nulFree]⟩
  · by_cases early : k < first.length
    · have outside : ¬ Ram.Covers ((dst + first.length) % 2 ^ 64) (second ++ [0]).length
          ((dst + k) % 2 ^ 64) := by
        simp only [Ram.Covers, List.length_append, List.length_singleton]
        omega
      rw [List.getElem_append_left early, ← holds.bytes k early]
      exact Ram.write_uncovered outside
    · obtain ⟨j, rfl⟩ := Nat.exists_eq_add_of_le (not_lt.mp early)
      rw [List.length_append] at inside
      rw [behind, written.bytes j (by omega), List.getElem_append_right (by omega)]
      congr 1
      omega
  · rw [List.length_append, behind]
    exact written.ended

/-- `strcat` on two texts of at most the limit each: the second goes behind the
first, and nothing else changes. -/
theorem strcat_appends {first second : List UInt8} (srcWord : src < 2 ^ 64)
    (dstNotNull : dst ≠ 0) (srcNotNull : src ≠ 0) (holds : HoldsText (ram.stream dst) first)
    (holds' : HoldsText (ram.stream src) second) (short : first.length ≤ safetyLimit)
    (short' : second.length ≤ safetyLimit)
    (apart : CopyApart src ((dst + first.length) % 2 ^ 64) second) :
    strcat ram dst src = (dst, ram.write ((dst + first.length) % 2 ^ 64) (second ++ [0])) ∧
      HoldsText ((strcat ram dst src).2.stream dst) (first ++ second) := by
  have found : endFrom ram dst 0 = some first.length := by
    have started : HoldsText (fun k => ram.stream dst (0 + k)) first := by
      simpa only [Nat.zero_add] using holds
    rw [endFrom_of_holds started (by omega), Nat.zero_add]
  have copy := (copyFrom_copies (Nat.mod_lt (dst + first.length) (Nat.two_pow_pos 64)) srcWord
    holds').whole apart short'
  rw [copyFrom_mod] at copy
  have same : strcat ram dst src =
      (dst, ram.write ((dst + first.length) % 2 ^ 64) (second ++ [0])) := by
    simp only [strcat, if_pos (And.intro dstNotNull srcNotNull), found, copy]
  have limit : safetyLimit = 0x100000 := rfl
  refine ⟨same, ?_⟩
  rw [same]
  exact Ram.holdsText_append holds holds'.nulFree (by omega)

theorem strlen_eq_ok {addr : Nat} (notNull : addr ≠ 0) {text : List UInt8}
    (holds : HoldsText (ram.stream addr) text) (short : text.length < 2 ^ 64) :
    strlen ram addr = .ok text.length := by
  rw [strlen, if_neg notNull, Ram.cstr_eq_ok.mpr ⟨holds, short⟩]
  rfl

theorem strcmp_eq_ok {s1 s2 : Nat} (notNull : s1 ≠ 0 ∧ s2 ≠ 0) {a b : List UInt8}
    (first : HoldsText (ram.stream s1) a) (second : HoldsText (ram.stream s2) b)
    (short : a.length < 2 ^ 64 ∧ b.length < 2 ^ 64) : strcmp ram s1 s2 = .ok (orderResult a b) := by
  rw [strcmp, if_neg (by simp [notNull]), Ram.cstr_eq_ok.mpr ⟨first, short.1⟩,
    Ram.cstr_eq_ok.mpr ⟨second, short.2⟩]
  rfl

theorem orderResult_eq_zero_iff {a b : List UInt8} : orderResult a b = 0 ↔ a = b := by
  unfold orderResult
  split
  · next same => exact iff_of_true rfl same
  · next differ =>
    refine iff_of_false ?_ differ
    split <;> decide

/-- The cells of a text with its NUL are none of a buffer. -/
def TextApart (addr : Nat) (text : List UInt8) (buffer size : Nat) : Prop :=
  Ram.Apart addr (text.length + 1) buffer size

theorem TextApart.holdsText {addr dest : Nat} {bytes : List UInt8}
    (holds : HoldsText (ram.stream addr) text) (apart : TextApart addr text dest bytes.length) :
    HoldsText ((ram.write dest bytes).stream addr) text :=
  holds.congr fun k inside => Ram.write_uncovered (apart k (Nat.lt_succ_of_le inside))

theorem TextApart.copyApart {addr buffer size offset : Nat} (word : addr < 2 ^ 64)
    (apart : TextApart addr text buffer size) (inside : offset < size) :
    CopyApart addr ((buffer + offset) % 2 ^ 64) text := by
  by_contra meets
  obtain ⟨ahead, within⟩ := not_or.mp meets
  apply apart (gap addr ((buffer + offset) % 2 ^ 64)) (Nat.lt_succ_of_le (not_lt.mp within))
  unfold Ram.Covers gap at *
  omega

/-- A guest that joins two texts in a buffer apart from both gets the joined text,
its length, and a comparison that tells it from all others. Nothing outside
the buffer changes. -/
theorem joined_text {buffer s t other : Nat} {first second third : List UInt8}
    (words : buffer < 2 ^ 64 ∧ s < 2 ^ 64 ∧ t < 2 ^ 64)
    (notNull : buffer ≠ 0 ∧ s ≠ 0 ∧ t ≠ 0 ∧ other ≠ 0)
    (holds : HoldsText (ram.stream s) first) (holds' : HoldsText (ram.stream t) second)
    (otherHolds : HoldsText (ram.stream other) third) (otherShort : third.length < 2 ^ 64)
    (short : first.length ≤ safetyLimit) (short' : second.length ≤ safetyLimit)
    (apart : TextApart s first buffer (first.length + second.length + 1))
    (apart' : TextApart t second buffer (first.length + second.length + 1))
    (otherApart : TextApart other third buffer (first.length + second.length + 1)) :
    ∃ after, strcat (strcpy ram buffer s).2 buffer t = (buffer, after) ∧
      HoldsText (after.stream buffer) (first ++ second) ∧
      strlen after buffer = .ok (first.length + second.length) ∧
      (strcmp after buffer other = .ok 0 ↔ third = first ++ second) ∧
      ∀ x, ¬ Ram.Covers buffer (first.length + second.length + 1) x → after x = ram x := by
  obtain ⟨bufferWord, sWord, tWord⟩ := words
  obtain ⟨bufferNotNull, sNotNull, tNotNull, otherNotNull⟩ := notNull
  have limit : safetyLimit = 0x100000 := rfl
  have here : (buffer + 0) % 2 ^ 64 = buffer := Nat.mod_eq_of_lt bufferWord
  have copied := (strcpy_copies bufferWord sWord bufferNotNull sNotNull holds).2.whole
    (here ▸ apart.copyApart sWord (Nat.succ_pos _)) short
  have covers : ∀ {x}, Ram.Covers buffer (first ++ [0]).length x →
      Ram.Covers buffer (first.length + second.length + 1) x :=
    fun covers => covers.mono (by simp)
  have kept : ∀ {addr text}, HoldsText (ram.stream addr) text →
      TextApart addr text buffer (first.length + second.length + 1) →
      HoldsText ((ram.write buffer (first ++ [0])).stream addr) text := fun holds outside =>
    TextApart.holdsText holds fun k inside => mt covers (outside k inside)
  have start := @Ram.holdsText_write ram buffer bufferWord first holds.nulFree (by omega)
  obtain ⟨appended, joined⟩ := strcat_appends tWord bufferNotNull tNotNull start
    (kept holds' apart') short short' (apart'.copyApart tWord (by omega))
  rw [copied, appended]
  rw [appended] at joined
  have behind : ∀ {x}, Ram.Covers ((buffer + first.length) % 2 ^ 64) (second ++ [0]).length x →
      Ram.Covers buffer (first.length + second.length + 1) x := by
    intro x
    simp only [Ram.Covers, List.length_append, List.length_singleton]
    omega
  have third' := TextApart.holdsText (kept otherHolds otherApart)
    fun k inside => mt behind (otherApart k inside)
  have joinedShort : (first ++ second).length < 2 ^ 64 := by
    rw [List.length_append]
    omega
  refine ⟨_, rfl, joined, ?_, ?_, fun x outside => ?_⟩
  · rw [strlen_eq_ok bufferNotNull joined joinedShort, List.length_append]
  · rw [strcmp_eq_ok ⟨bufferNotNull, otherNotNull⟩ joined third' ⟨joinedShort, otherShort⟩,
      Outcome.ok.injEq, orderResult_eq_zero_iff, eq_comm]
  · rw [Ram.write_uncovered (mt behind outside), Ram.write_uncovered (mt covers outside)]

end Strings

def Ram.withTexts : Ram :=
  ((Ram.write (fun _ => 0) 0x1000 [97, 98]).write 0x2000 [99]).write 0x3000 [97, 98, 99]

theorem joined_text_abc :
    ∃ after, strcat (strcpy .withTexts 0x4000 0x1000).2 0x4000 0x2000 = (0x4000, after) ∧
      HoldsText (after.stream 0x4000) ([97, 98] ++ [99]) ∧
      strlen after 0x4000 = .ok 3 ∧
      (strcmp after 0x4000 0x3000 = .ok 0 ↔ [97, 98, 99] = [97, 98] ++ ([99] : List UInt8)) ∧
      ∀ x, ¬ Ram.Covers 0x4000 4 x → after x = Ram.withTexts x := by
  have holds : ∀ {addr text}, scanText 8 (Ram.withTexts.stream addr) = some text →
      HoldsText (Ram.withTexts.stream addr) text := fun scanned => (scanText_eq_some_iff.mp scanned).1
  exact joined_text (by decide) (by decide) (holds (by decide)) (holds (by decide))
    (holds (by decide)) (by decide) (by decide) (by decide)
    (by unfold TextApart; decide) (by unfold TextApart; decide)
    (by unfold TextApart; decide)

/-- A text copied two bytes ahead of its start is repeated over more than a megabyte. -/
theorem strcpy_copies_overrun :
    (strcpy .withTexts 0x3002 0x3000).1 = 0x3002 ∧
      CopiesText .withTexts 0x3002 0x3000 [97, 98, 99] (strcpy .withTexts 0x3002 0x3000).2 ∧
      ¬ CopyApart 0x3000 0x3002 [97, 98, 99] := by
  have holds : HoldsText (Ram.withTexts.stream 0x3000) [97, 98, 99] :=
    (scanText_eq_some_iff.mp (by decide : scanText 8 (Ram.withTexts.stream 0x3000) = some _)).1
  obtain ⟨value, copies⟩ := @strcpy_copies .withTexts 0x3002 0x3000 [97, 98, 99] (by decide)
    (by decide) (by decide) (by decide) holds
  exact ⟨value, copies, by unfold CopyApart; decide⟩

/-! ### Formatting -/

section Format

variable {p : Profile} {ram : Ram} {buf size fmt vaList : Nat} {text : List UInt8}

def StringArgFits (p : Profile) (ram : Ram) (fmt : List UInt8) (vaList : Nat) : Prop :=
  containsText (fromUtf8Lossy fmt) "%s" = true → vaList ≠ 0 →
    leNat (ram.readBytes vaList 4) ≤ 40 → leNat (ram.readBytes (vaList + 16) 8) ≠ 0 →
    p.SumFits (leNat (ram.readBytes (vaList + 16) 8)) (leNat (ram.readBytes vaList 4))

theorem logStringArg_returns :
    (logStringArg p ram text vaList).Returns ↔ StringArgFits p ram text vaList := by
  unfold logStringArg StringArgFits
  split
  · next logged =>
    dsimp only
    split
    · next taken =>
      refine (Outcome.returns_bind_of_forall fun _ => ⟨_, rfl⟩).trans (Profile.add_returns.trans ?_)
      exact ⟨fun fits _ _ _ _ => fits, fun fits => fits logged.1 logged.2 taken.1 taken.2⟩
    · next refused =>
      exact iff_of_true (Outcome.returns_ok _) fun _ _ offset area =>
        absurd ⟨offset, area⟩ refused
  · next quiet =>
    exact iff_of_true (Outcome.returns_ok _) fun contains pointer => absurd ⟨contains, pointer⟩ quiet

theorem copyNonoverlapping_returns {src dst n : Nat} :
    (copyNonoverlapping p ram src dst n).Returns ↔
      (p = .dev → maybeIsNonoverlapping src dst n = true) :=
  (Outcome.returns_bind_of_forall fun _ => ⟨_, rfl⟩).trans Profile.debugCheck_returns

theorem copyNonoverlapping_eq_ok {src dst n : Nat} {after : Ram}
    (copied : copyNonoverlapping p ram src dst n = .ok after) :
    after = ram.write dst (ram.readBytes src n) := by
  obtain ⟨_, -, copied⟩ := Outcome.bind_eq_ok.mp copied
  exact (Outcome.ok.inj copied).symm

/-- `vsnprintf` copies the format. What it leaves in the buffer is a text shorter than the
buffer, however long the format is, and its length is the result. The call fails only where
the copy overlaps its source or the sum for the logged argument overflows a check. -/
theorem vsnprintf_copies (bufNotNull : buf ≠ 0) (sizeNotZero : size ≠ 0) (fmtNotNull : fmt ≠ 0)
    (bufWord : buf < 2 ^ 64) (sizeWord : size < 2 ^ 64) (holds : HoldsText (ram.stream fmt) text)
    (short : text.length < 2 ^ 64)
    (defined : p = .release →
      maybeIsNonoverlapping fmt buf (min text.length (size - 1)) = true) :
    let n := min text.length (size - 1)
    let after := ram.write buf (text.take n ++ [0])
    ((vsnprintf p ram buf size fmt vaList).Returns ↔ maybeIsNonoverlapping fmt buf n = true ∧
      StringArgFits p after (after.readBytes fmt text.length) vaList) ∧
    ∀ result, vsnprintf p ram buf size fmt vaList = .ok result → result = (n, after) ∧ n < size ∧
      HoldsText (after.stream buf) (text.take n) ∧
      ∀ x, ¬ Ram.Covers buf size x → after x = ram x := by
  intro n after
  have below : n < size := lt_of_le_of_lt (Nat.min_le_right _ _) (by omega)
  have length : (text.take n).length = n := by
    rw [List.length_take]
    exact Nat.min_eq_left (Nat.min_le_left _ _)
  have written : (ram.write buf (ram.readBytes fmt n)).write ((buf + n) % 2 ^ 64) [0] = after := by
    have concat := @Ram.write_append ram buf (text.take n) [0] bufWord
      (by rw [length, List.length_singleton]; omega)
    rw [length] at concat
    rw [Ram.readBytes, holds.firstBytes_eq (Nat.min_le_left _ _)]
    exact concat
  have same : vsnprintf p ram buf size fmt vaList = (do
      let ram ← copyNonoverlapping p ram fmt buf n
      let ram := ram.write ((buf + n) % 2 ^ 64) [0]
      logStringArg p ram (ram.readBytes fmt text.length) vaList
      return (n, ram)) := by
    rw [vsnprintf, if_neg (by simp [bufNotNull, sizeNotZero]), if_pos fmtNotNull,
      Ram.cstr_eq_ok.mpr ⟨holds, short⟩, Outcome.ok_bind]
  have nulFree : 0 ∉ text.take n := fun member => holds.nulFree (List.mem_of_mem_take member)
  have apart_iff : (copyNonoverlapping p ram fmt buf n).Returns ↔
      maybeIsNonoverlapping fmt buf n = true := by
    apply copyNonoverlapping_returns.trans
    cases p with
    | dev => exact ⟨fun apart => apart rfl, fun apart _ => apart⟩
    | release => exact iff_of_true (fun dev => by cases dev) (defined rfl)
  rw [same]
  refine ⟨?_, fun result returned => ?_⟩
  · rw [Outcome.returns_bind, ← apart_iff]
    have logged : ∀ {copy}, copyNonoverlapping p ram fmt buf n = .ok copy →
        copy.write ((buf + n) % 2 ^ 64) [0] = after := fun copied =>
      copyNonoverlapping_eq_ok copied ▸ written
    constructor
    · rintro ⟨copy, copied, returned⟩
      dsimp only at returned
      rw [logged copied] at returned
      obtain ⟨_, noted, -⟩ := Outcome.returns_bind.mp returned
      exact ⟨⟨copy, copied⟩, logStringArg_returns.mp ⟨_, noted⟩⟩
    · rintro ⟨⟨copy, copied⟩, fits⟩
      refine ⟨copy, copied, ?_⟩
      dsimp only
      rw [logged copied]
      exact (Outcome.returns_bind_of_forall fun _ => ⟨_, rfl⟩).mpr (logStringArg_returns.mpr fits)
  · obtain ⟨copy, copied, returned⟩ := Outcome.bind_eq_ok.mp returned
    obtain ⟨_, -, returned⟩ := Outcome.bind_eq_ok.mp returned
    rw [copyNonoverlapping_eq_ok copied, written] at returned
    cases returned
    refine ⟨rfl, below, Ram.holdsText_write bufWord nulFree (by omega), fun x outside => ?_⟩
    refine Ram.write_uncovered (mt (fun covers => covers.mono ?_) outside)
    rw [List.length_append, length, List.length_singleton]
    exact below

end Format

/-- Of `abc` two bytes fit into three. -/
theorem vsnprintf_copies_cut :
    (vsnprintf .dev .withTexts 0x4000 3 0x3000 0).Returns ∧
      ∀ result, vsnprintf .dev .withTexts 0x4000 3 0x3000 0 = .ok result →
        result.1 = 2 ∧ HoldsText (result.2.stream 0x4000) ([97, 98, 99].take 2) := by
  have holds : HoldsText (Ram.withTexts.stream 0x3000) [97, 98, 99] :=
    (scanText_eq_some_iff.mp (by decide : scanText 8 (Ram.withTexts.stream 0x3000) = some _)).1
  obtain ⟨returns, copies⟩ := @vsnprintf_copies .dev .withTexts 0x4000 3 0x3000 0 [97, 98, 99]
    (by decide) (by decide) (by decide) (by decide) (by decide) holds (by decide)
    (fun release => by cases release)
  refine ⟨returns.mpr ⟨by decide, fun _ pointer => absurd rfl pointer⟩, fun result returned => ?_⟩
  have two : min ([97, 98, 99] : List UInt8).length (3 - 1) = 2 := by decide
  rw [two] at copies
  obtain ⟨rfl, -, text, -⟩ := copies result returned
  dsimp only
  exact ⟨rfl, text⟩

/-- A format that is copied onto its own second byte stops a `dev` build. -/
example : vsnprintf .dev .withTexts 0x3001 3 0x3000 0 = .panic .overlapping := by
  have text : Ram.withTexts.cstr 0x3000 = .ok [97, 98, 99] :=
    Ram.cstr_eq_ok.mpr ⟨(scanText_eq_some_iff.mp
      (by decide : scanText 8 (Ram.withTexts.stream 0x3000) = some _)).1, by decide⟩
  rw [vsnprintf, if_neg (by decide), if_pos (by decide), text]
  rfl

end AnotherPs4
