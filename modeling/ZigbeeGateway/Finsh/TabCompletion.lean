-- SUMMARY: Tab completion in FinSH: the longest common prefix.
import Mathlib
import ZigbeeGateway.Lib.CString

/-!
# Tab completion

`list_prefix` goes through four tables of names. The first name that matches becomes the reference, and
`min_length` the number of characters that every later one has in common with it. The loop over the
static functions takes a new reference whenever `func_cnt` is zero, and that counter has 16 bits.
-/

namespace RtThread.TabCompletion

open CString

/-- The names of the static and the appended functions and variables. -/
structure Tables where
  syscalls : List (List UInt8)
  syscallItems : List (List UInt8)
  sysvars : List (List UInt8)
  sysvarItems : List (List UInt8)

/-- `str_is_prefix(prefix, str) == 0`. -/
def strIsPrefix : List UInt8 → List UInt8 → Bool
  | [], _ => true
  | _ :: _, [] => false
  | p :: ps, c :: cs => p == c && strIsPrefix ps cs

/-- `str_common`. -/
def strCommon : List UInt8 → List UInt8 → Nat
  | a :: as, b :: bs => if a = b then strCommon as bs + 1 else 0
  | _, _ => 0

/-- `rt_strncpy` to the place `i` of a buffer. Behind the end of the string zeros are copied. -/
def rtStrncpy (dst : List UInt8) (i : Nat) (src : List UInt8) : Nat → Option (List UInt8)
  | 0 => some dst
  | n + 1 => do
    let dst ← write dst i (src.headD 0)
    rtStrncpy dst (i + 1) src.tail n

/-- The variables of `list_prefix`. `cnt` is the counter of the kind of names that is looked at. -/
structure Found where
  cnt : Nat
  namePtr : Option (List UInt8)
  minLength : Nat
  deriving DecidableEq, Repr

/-- `min_length` after a name was compared with the reference. -/
def Found.compare (f : Found) (name : List UInt8) : Option Found :=
  f.namePtr.map fun namePtr =>
    let length := strCommon namePtr name
    { f with minLength := if length < f.minLength then length else f.minLength }

/-- The loop body for one name. Only the loop over the static functions does not ask whether there is a
reference already (`fresh`). -/
def visit (fresh : Bool) (text : List UInt8) (f : Found) (name : List UInt8) : Option Found :=
  if strIsPrefix text name then
    let f := if f.cnt = 0 ∧ text ≠ [] ∧ (fresh ∨ f.namePtr = none) then
      { f with namePtr := some name, minLength := name.length } else f
    let f := { f with cnt := (f.cnt + 1) % 2 ^ 16 }
    if text ≠ [] then f.compare name else some f
  else
    some f

/-- The static functions that are skipped: `str_is_prefix("__", name) == 0`. -/
def hidden (name : List UInt8) : Bool := strIsPrefix [0x5f, 0x5f] name

def visitSyscall (text : List UInt8) (f : Found) (name : List UInt8) : Option Found :=
  if hidden name then some f else visit true text f name

/-- `list_prefix`, without its output. -/
def listPrefix (t : Tables) (line : List UInt8) : Option (List UInt8) := do
  let text ← string line
  let f ← t.syscalls.foldlM (visitSyscall text) ⟨0, none, 0⟩
  let f ← t.syscallItems.foldlM (visit false text) f
  let f ← t.sysvars.foldlM (visit false text) { f with cnt := 0 }
  let f ← t.sysvarItems.foldlM (visit false text) f
  match f.namePtr with
  | none => return line
  | some name => rtStrncpy line 0 name f.minLength

/-! ## Common prefixes -/

variable {text name a b : List UInt8} {names found : List (List UInt8)} {f : Found} {k : Nat}

theorem strIsPrefix_iff : strIsPrefix a b = true ↔ a <+: b := by
  induction a generalizing b with
  | nil => simp [strIsPrefix]
  | cons c a ih =>
    cases b with
    | nil => simp [strIsPrefix]
    | cons d b => simp [strIsPrefix, ih, List.cons_prefix_cons]

theorem le_strCommon_iff : k ≤ strCommon a b ↔ k ≤ a.length ∧ a.take k <+: b := by
  induction a generalizing b k with
  | nil => simp +contextual [strCommon]
  | cons c a ih =>
    cases k with
    | zero => simp
    | succ k =>
      cases b with
      | nil => simp [strCommon]
      | cons d b => by_cases hcd : c = d <;> simp [strCommon, hcd, List.cons_prefix_cons, ih]

def IsLongestCommon (p : List UInt8) (names : List (List UInt8)) : Prop :=
  (∀ name ∈ names, p <+: name) ∧ ∀ q, (∀ name ∈ names, q <+: name) → q <+: p

/-- The names `found` have matched so far: `name_ptr` is one of them, and `min_length` says how much of
it they have in common. -/
def Tracks (f : Found) (found : List (List UInt8)) : Prop :=
  match f.namePtr with
  | none => found = [] ∧ f.cnt = 0
  | some r => r ∈ found ∧ ∀ k, k ≤ f.minLength ↔ k ≤ r.length ∧ ∀ name ∈ found, r.take k <+: name

/-- A name that matches is compared with the reference. -/
theorem tracks_snoc {r : List UInt8} {m cnt : Nat} (hr : r ∈ found ++ [name])
    (hm : ∀ k, k ≤ m ↔ k ≤ r.length ∧ ∀ name ∈ found, r.take k <+: name) :
    Tracks ⟨cnt, some r, if strCommon r name < m then strCommon r name else m⟩ (found ++ [name]) := by
  refine ⟨hr, fun k => ?_⟩
  have hmin : k ≤ (if strCommon r name < m then strCommon r name else m) ↔
      k ≤ m ∧ k ≤ strCommon r name := by
    split <;> omega
  simp only [hmin, hm, le_strCommon_iff, List.forall_mem_append, List.forall_mem_singleton]
  tauto

/-- One name. The loop over the static functions takes a new reference when its counter is zero. -/
theorem Tracks.visit (h : Tracks f found) (fresh : Bool) (name : List UInt8) (htext : text ≠ []) :
    ∃ f', visit fresh text f name = some f' ∧
      Tracks f' (if text <+: name then (if fresh = true ∧ f.cnt = 0 then [] else found) ++ [name] else found) ∧
      f'.cnt = if text <+: name then (f.cnt + 1) % 2 ^ 16 else f.cnt := by
  obtain ⟨cnt, namePtr, minLength⟩ := f
  by_cases hname : text <+: name
  · rw [TabCompletion.visit, if_pos (strIsPrefix_iff.mpr hname), if_pos hname, if_pos hname]
    by_cases hreset : cnt = 0 ∧ text ≠ [] ∧ (fresh = true ∨ namePtr = none)
    · -- the name is the new reference
      have hfound : (if fresh = true ∧ cnt = 0 then [] else found) = [] := by
        obtain ⟨hcnt, -, hfresh | rfl⟩ := hreset
        · exact if_pos ⟨hfresh, hcnt⟩
        · rw [h.1, ite_self]
      have htracks (cnt : Nat) : Tracks ⟨cnt, some name,
          if strCommon name name < name.length then strCommon name name else name.length⟩ ([] ++ [name]) :=
        tracks_snoc (by simp) (by simp)
      rw [hfound, if_pos hreset, if_pos htext]
      exact ⟨_, rfl, htracks _, rfl⟩
    · cases namePtr with
      | none => exact absurd ⟨h.2, htext, .inr rfl⟩ hreset
      | some r =>
        obtain ⟨hr, hm⟩ := h
        have hkept : ¬ (fresh = true ∧ cnt = 0) := fun hc => hreset ⟨hc.2, htext, .inl hc.1⟩
        rw [if_neg hkept, if_neg hreset, if_pos htext]
        exact ⟨_, rfl, tracks_snoc (List.mem_append_left _ hr) hm, rfl⟩
  · rw [TabCompletion.visit, if_neg (by simpa [strIsPrefix_iff] using hname), if_neg hname, if_neg hname]
    exact ⟨_, rfl, h, rfl⟩

/-- A loop that asks for the reference. -/
theorem Tracks.visits (h : Tracks f found) (htext : text ≠ []) (names : List (List UInt8)) :
    ∃ f', names.foldlM (TabCompletion.visit false text) f = some f' ∧
      Tracks f' (found ++ names.filter (text <+: ·)) := by
  induction names generalizing f found with
  | nil => exact ⟨f, rfl, by simpa using h⟩
  | cons name names ih =>
    obtain ⟨f1, hvisit, h1, -⟩ := h.visit false name htext
    obtain ⟨f', hrest, h'⟩ := ih h1
    refine ⟨f', ?_, ?_⟩
    · rw [List.foldlM_cons, hvisit]
      exact hrest
    · by_cases hname : text <+: name
      · simpa [hname] using h'
      · simpa [hname] using h'

theorem Tracks.resetCnt (h : Tracks f found) : Tracks { f with cnt := 0 } found := by
  unfold Tracks at h ⊢
  cases hptr : f.namePtr with
  | none =>
    rw [hptr] at h
    exact ⟨h.1, rfl⟩
  | some r =>
    rw [hptr] at h
    exact h

/-- The names from the last one on for which the counter of 16 bits was zero. -/
def sinceZero (names : List (List UInt8)) : List (List UInt8) := names.drop (2 ^ 16 * ((names.length - 1) / 2 ^ 16))

theorem sinceZero_concat (names : List (List UInt8)) (name : List UInt8) :
    sinceZero (names ++ [name]) = (if names.length % 2 ^ 16 = 0 then [] else sinceZero names) ++ [name] := by
  have hdrop : sinceZero (names ++ [name]) = names.drop (2 ^ 16 * (names.length / 2 ^ 16)) ++ [name] := by
    rw [sinceZero, List.length_append, List.length_singleton, Nat.add_sub_cancel,
      List.drop_append_of_le_length (by omega)]
  rw [hdrop, sinceZero]
  split
  next hzero => rw [List.drop_eq_nil_of_le (by omega)]
  next hpos => rw [show (names.length - 1) / 2 ^ 16 = names.length / 2 ^ 16 by omega]

/-- The loop over the static functions compares the names since its counter was zero. -/
theorem Tracks.visitSyscalls (h : Tracks f (sinceZero found)) (htext : text ≠ [])
    (hcnt : f.cnt = found.length % 2 ^ 16) :
    ∃ f', names.foldlM (visitSyscall text) f = some f' ∧
      Tracks f' (sinceZero (found ++ (names.filter fun name => !hidden name).filter (text <+: ·))) := by
  induction names generalizing f found with
  | nil => exact ⟨f, rfl, by simpa using h⟩
  | cons name names ih =>
    rw [List.foldlM_cons, visitSyscall]
    by_cases hhidden : hidden name = true
    · rw [List.filter_cons_of_neg (by simp [hhidden]), if_pos hhidden]
      exact ih h hcnt
    · rw [List.filter_cons_of_pos (by simpa using hhidden), if_neg hhidden]
      obtain ⟨f1, hvisit, h1, hcnt1⟩ := h.visit true name htext
      rw [hvisit]
      by_cases hname : text <+: name
      · rw [if_pos hname, hcnt] at hcnt1
        simp only [if_pos hname, hcnt, true_and, ← sinceZero_concat] at h1
        rw [List.filter_cons_of_pos (by simpa using hname), List.append_cons]
        exact ih h1 (by simp [hcnt1])
      · rw [if_neg hname] at h1 hcnt1
        rw [List.filter_cons_of_neg (by simpa using hname)]
        exact ih h1 (hcnt1.trans hcnt)

/-! ## The line -/

theorem rtStrncpy_append (l r src : List UInt8) (n : Nat) (hr : n ≤ r.length) (hsrc : n ≤ src.length) :
    rtStrncpy (l ++ r) l.length src n = some (l ++ (src.take n ++ r.drop n)) := by
  induction n generalizing l r src with
  | zero => rfl
  | succ n ih =>
    obtain ⟨x, r, rfl⟩ := List.exists_cons_of_length_pos (Nat.zero_lt_of_lt hr)
    obtain ⟨c, src, rfl⟩ := List.exists_cons_of_length_pos (Nat.zero_lt_of_lt hsrc)
    have hnext := ih (l ++ [c]) r src (by simpa using hr) (by simpa using hsrc)
    rw [List.length_append, List.append_assoc, List.append_assoc] at hnext
    rw [rtStrncpy, List.headD_cons, write_append]
    exact hnext

namespace Tables

/-- The names that are shown for a text. -/
def staticMatches (t : Tables) (text : List UInt8) : List (List UInt8) :=
  (t.syscalls.filter fun name => !hidden name).filter (text <+: ·)

def otherMatches (t : Tables) (text : List UInt8) : List (List UInt8) :=
  (t.syscallItems ++ t.sysvars ++ t.sysvarItems).filter (text <+: ·)

def shown (t : Tables) (text : List UInt8) : List (List UInt8) := t.staticMatches text ++ t.otherMatches text

/-- The names that are compared with the last reference. -/
def compared (t : Tables) (text : List UInt8) : List (List UInt8) :=
  sinceZero (t.staticMatches text) ++ t.otherMatches text

theorem subset_shown {t : Tables} (h : name ∈ t.compared text) : name ∈ t.shown text :=
  (List.mem_append.mp h).elim (fun h => List.mem_append_left _ (List.mem_of_mem_drop h)) (List.mem_append_right _)

theorem compared_eq_nil {t : Tables} (h : t.compared text = []) : t.shown text = [] := by
  obtain ⟨hstatic, hother⟩ := List.append_eq_nil_iff.mp h
  have hlen := List.drop_eq_nil_iff.mp hstatic
  have hzero : (t.staticMatches text).length = 0 := by omega
  rw [shown, hother, List.length_eq_zero_iff.mp hzero]
  rfl

end Tables

/-- The names are shorter than the line, and so is the text. -/
structure Fits (t : Tables) (size : Nat) (text : List UInt8) : Prop where
  names : ∀ name ∈ t.syscalls ++ t.syscallItems ++ t.sysvars ++ t.sysvarItems, name.length < size
  text : text ≠ [] ∧ 0 ∉ text ∧ text.length < size

/-- The result is the longest common prefix of the names, or the text if there are none. -/
def Completion (text result : List UInt8) (names : List (List UInt8)) : Prop :=
  (names = [] → result = text) ∧ (names ≠ [] → IsLongestCommon result names)

/-- What the completion of a text should leave in the line. -/
def Completes (t : Tables) (size : Nat) (text : List UInt8) : Prop :=
  ∃ result, listPrefix t (pad size text) = some (pad size result) ∧ result.length < size ∧
    Completion text result (t.shown text)

/-- What the line holds at the end of the loops. -/
theorem Tracks.completes {t : Tables} {size : Nat} (h : Tracks f (t.compared text)) (hfits : Fits t size text) :
    ∃ result, (match f.namePtr with
        | none => some (pad size text)
        | some name => rtStrncpy (pad size text) 0 name f.minLength) = some (pad size result) ∧
      result.length < size ∧ Completion text result (t.compared text) := by
  obtain ⟨-, -, htext⟩ := hfits.text
  unfold Tracks at h
  cases hptr : f.namePtr with
  | none =>
    rw [hptr] at h
    exact ⟨text, rfl, htext, fun _ => rfl, fun hne => absurd h.1 hne⟩
  | some r =>
    rw [hptr] at h
    obtain ⟨hr, hmin⟩ := h
    have hstarts : ∀ name ∈ t.compared text, text <+: name := by
      intro name hname
      have hname := Tables.subset_shown hname
      simp only [Tables.shown, Tables.staticMatches, Tables.otherMatches, List.mem_append, List.mem_filter,
        decide_eq_true_eq] at hname
      exact hname.elim And.right And.right
    have hlen : r.length < size := hfits.names r (by
      have hr := Tables.subset_shown hr
      simp only [Tables.shown, Tables.staticMatches, Tables.otherMatches, List.mem_append, List.mem_filter] at hr ⊢
      tauto)
    obtain ⟨hle, hcommon⟩ := (hmin f.minLength).mp (Nat.le_refl _)
    have htake : (r.take f.minLength).length = f.minLength := List.length_take_of_le hle
    have htext_le : text.length ≤ f.minLength := by
      have heq := List.prefix_iff_eq_take.mp (hstarts r hr)
      exact (hmin _).mpr ⟨(hstarts r hr).length_le, heq ▸ hstarts⟩
    have hcopy := rtStrncpy_append [] (pad size text) r f.minLength
      (by rw [length_pad (Nat.le_of_lt htext)]; omega) hle
    refine ⟨r.take f.minLength, ?_, by omega, fun hnil => ?_, fun _ => ⟨hcommon, fun q hq => ?_⟩⟩
    · refine hcopy.trans ?_
      have hrest : size - text.length - (f.minLength - text.length) = size - f.minLength := by omega
      rw [pad, pad, List.drop_append, List.drop_eq_nil_of_le htext_le, List.drop_replicate, htake, hrest]
      rfl
    · rw [hnil] at hr
      cases hr
    · have heq := List.prefix_iff_eq_take.mp (hq r hr)
      rw [heq]
      exact List.take_prefix_take_left ((hmin _).mpr ⟨(hq r hr).length_le, heq ▸ hq⟩)

/-- The line gets the longest common prefix of the names that are compared with the last reference. -/
theorem listPrefix_spec {t : Tables} {size : Nat} (hfits : Fits t size text) :
    ∃ result, listPrefix t (pad size text) = some (pad size result) ∧ result.length < size ∧
      Completion text result (t.compared text) := by
  obtain ⟨hne, hzero, htext⟩ := hfits.text
  have hstart : Tracks ⟨0, none, 0⟩ (sinceZero []) := ⟨rfl, rfl⟩
  obtain ⟨f1, hrun1, h1⟩ := hstart.visitSyscalls hne rfl
  obtain ⟨f2, hrun2, h2⟩ := h1.visits hne t.syscallItems
  obtain ⟨f3, hrun3, h3⟩ := h2.resetCnt.visits hne t.sysvars
  obtain ⟨f4, hrun4, h4⟩ := h3.visits hne t.sysvarItems
  have htracks : Tracks f4 (t.compared text) := by
    simpa [Tables.compared, Tables.otherMatches, Tables.staticMatches] using h4
  obtain ⟨result, hline, hresult⟩ := htracks.completes hfits
  refine ⟨result, ?_, hresult⟩
  have hstring : string (pad size text) = some text := string_pad hzero htext
  simp only [listPrefix, hstring, Option.bind_eq_bind, Option.bind_some, hrun1, hrun2, hrun3, hrun4]
  exact hline

/-- Functions `a`, and then `ab`. -/
def wrapTables (n : Nat) : Tables := ⟨List.replicate n [0x61] ++ [[0x61, 0x62]], [], [], []⟩

theorem staticMatches_wrap (n : Nat) :
    (wrapTables n).staticMatches [0x61] = List.replicate n [0x61] ++ [[0x61, 0x62]] := by
  simp [wrapTables, Tables.staticMatches, hidden, strIsPrefix, List.filter_append]

/-- When the counter has gone round, `ab` is the new reference. -/
theorem not_completes_wrap {n : Nat} (hn : (n + 1) % 2 ^ 16 = 0) :
    Fits (wrapTables (n + 1)) 80 [0x61] ∧ ¬ Completes (wrapTables (n + 1)) 80 [0x61] := by
  have hfits : Fits (wrapTables (n + 1)) 80 [0x61] := by
    refine ⟨fun name hname => ?_, by decide⟩
    simp only [wrapTables, List.append_nil, List.mem_append, List.mem_replicate, List.mem_singleton] at hname
    rcases hname with ⟨-, rfl⟩ | rfl <;> decide
  have hcompared : (wrapTables (n + 1)).compared [0x61] = [[0x61, 0x62]] := by
    rw [Tables.compared, staticMatches_wrap, sinceZero_concat, List.length_replicate, if_pos hn]
    rfl
  obtain ⟨result, hrun, -, -, hcommon⟩ := listPrefix_spec hfits
  rw [hcompared] at hcommon
  obtain ⟨rest, rfl⟩ : [0x61, 0x62] <+: result :=
    (hcommon (by decide)).2 _ (List.forall_mem_singleton.mpr List.prefix_rfl)
  refine ⟨hfits, ?_⟩
  rintro ⟨result, hresult, -, -, hcommon⟩
  have hstarts : result <+: [0x61] := (hcommon (by simp [Tables.shown, staticMatches_wrap])).1 [0x61]
    (by simp [Tables.shown, staticMatches_wrap])
  have hzero : (pad 80 result)[1]? = some 0 := getElem?_pad hstarts.length_le (by decide)
  rw [← Option.some.inj (hrun.symm.trans hresult)] at hzero
  cases hzero

/-- There are 65536 functions `a`, and then `ab`: the `a` in the line becomes `ab`. -/
theorem listPrefix_wrap :
    Fits (wrapTables (65535 + 1)) 80 [0x61] ∧ ¬ Completes (wrapTables (65535 + 1)) 80 [0x61] :=
  not_completes_wrap (by decide)

theorem IsLongestCommon.zero_notMem {p : List UInt8} (h : IsLongestCommon p names) (hne : names ≠ [])
    (hzero : ∀ name ∈ names, 0 ∉ name) : 0 ∉ p := by
  obtain ⟨name, hname⟩ := List.exists_mem_of_ne_nil names hne
  exact fun hp => hzero name hname ((h.1 name hname).subset hp)

theorem compared_eq_shown {t : Tables} (h : (t.staticMatches text).length ≤ 2 ^ 16) :
    t.compared text = t.shown text := by
  rw [Tables.compared, sinceZero, Nat.div_eq_of_lt (by omega)]
  rfl

/-- The completion is right if all names that are shown start with what the names that are compared
with the last reference have in common; so it is as long as the counter does not go round. For
names without a zero byte the condition is exact. -/
theorem listPrefix_completes_iff {t : Tables} {size : Nat} (hfits : Fits t size text) :
    ((∀ p, (∀ name ∈ t.compared text, p <+: name) → ∀ name ∈ t.shown text, p <+: name) → Completes t size text) ∧
    ((t.staticMatches text).length ≤ 2 ^ 16 → Completes t size text) ∧
    ((∀ name ∈ t.shown text, 0 ∉ name) → Completes t size text →
      ∀ p, (∀ name ∈ t.compared text, p <+: name) → ∀ name ∈ t.shown text, p <+: name) := by
  obtain ⟨r, hrun, hlen, hnil, hcommon⟩ := listPrefix_spec hfits
  have hsubset (hshown : t.shown text = []) : t.compared text = [] :=
    List.eq_nil_iff_forall_not_mem.mpr fun name hname => by
      have hmem := Tables.subset_shown hname
      rw [hshown] at hmem
      cases hmem
  have hcompletes (hall : ∀ p, (∀ name ∈ t.compared text, p <+: name) → ∀ name ∈ t.shown text, p <+: name) :
      Completes t size text := by
    refine ⟨r, hrun, hlen, fun hshown => hnil (hsubset hshown), fun hshown => ?_⟩
    obtain ⟨hr, hlongest⟩ := hcommon (mt Tables.compared_eq_nil hshown)
    exact ⟨hall r hr, fun q hq => hlongest q fun name hname => hq name (Tables.subset_shown hname)⟩
  refine ⟨hcompletes, fun hcount => hcompletes fun p hp => compared_eq_shown hcount ▸ hp, ?_⟩
  rintro hzero ⟨r', hrun', hlen', -, hcommon'⟩ p hp name hname
  have hshown : t.shown text ≠ [] := List.ne_nil_of_mem hname
  have hcompared : t.compared text ≠ [] := mt Tables.compared_eq_nil hshown
  have hlongest := hcommon hcompared
  have hlongest' := hcommon' hshown
  -- both results end where the zeros of the line begin
  have heq : some r = some r' := by
    rw [← string_pad (hlongest.zero_notMem hcompared fun _ h => hzero _ (Tables.subset_shown h)) hlen,
      ← string_pad (hlongest'.zero_notMem hshown hzero) hlen', Option.some.inj (hrun.symm.trans hrun')]
  obtain rfl := Option.some.inj heq
  exact (hlongest.2 p hp).trans (hlongest'.1 name hname)

/-- One static function and a variable, which both start with the text. -/
theorem listPrefix_completes_two : Completes ⟨[[0x61, 0x62, 0x63]], [], [[0x61, 0x62]], []⟩ 80 [0x61] :=
  (listPrefix_completes_iff ⟨by decide, by decide⟩).2.1 (by decide)

end RtThread.TabCompletion
