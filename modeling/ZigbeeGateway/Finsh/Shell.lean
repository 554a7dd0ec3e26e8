-- SUMMARY: The line editor of the FinSH shell.
import Mathlib.Data.UInt
import ZigbeeGateway.Lib.CString
import ZigbeeGateway.Lib.Run

/-!
# The shell's line editor

The loop of `finsh_thread_entry` over the bytes it reads, without the tab key and without
`FINSH_USING_MSH`. The state is the part of `struct finsh_shell` that the loop uses. A call of
`rt_kprintf` stands for what it reads of the line: `%s` reads up to a zero. An access outside of
`line` or `cmd_history` has no result.

`Editor` says what the keys mean: a text with a cursor, and the lines typed before. The shell follows
it (`Shows`) as long as no text is longer than 78 bytes and no other byte has arrived behind a carriage
return when that is read. At 79 bytes the `;` takes the place of the terminating zero, at 80 the `;` is
written behind the line, and a byte behind a carriage return is taken for it.
-/

namespace RtThread.Shell

open Run CString

/-- `FINSH_CMD_SIZE`. -/
def finshCmdSize : Nat := 80

/-- `FINSH_HISTORY_LINES`. -/
def finshHistoryLines : Nat := 5

/-- `enum input_stat`. -/
inductive InputStat where
  | waitNormal
  | waitSpecKey
  | waitFuncKey
  deriving DecidableEq, Repr

structure FinshShell where
  stat : InputStat
  echoMode : Bool
  currentHistory : Nat
  historyCount : Nat
  cmdHistory : List (List UInt8)
  line : List UInt8
  linePosition : Nat
  lineCurpos : Nat
  deriving DecidableEq, Repr

/-- A byte that the loop reads, and the byte that a second `rt_device_read` would get. -/
structure Key where
  ch : UInt8
  next : Option UInt8
  deriving DecidableEq, Repr

/-! ## shell.c -/

/-- What `rt_kprintf` reads for `%s`. -/
def printString (l : List UInt8) : Option Unit := (string l).map fun _ => ()

/-- The row that `shell_push_history` fills: zeros, then `line_position` bytes of the line. -/
def historyRow (shell : FinshShell) : Option (List UInt8) :=
  if shell.linePosition ≤ finshCmdSize then
    some (pad finshCmdSize (shell.line.take shell.linePosition))
  else
    none

/-- The loop that moves the history: row `index + 1` is copied to row `index`. -/
def moveHistory (rows : List (List UInt8)) : List (List UInt8) :=
  (List.range (finshHistoryLines - 1)).foldl
    (fun rows index => rows.set index (rows.getD (index + 1) [])) rows

/-- `shell_push_history`. -/
def shellPushHistory (shell : FinshShell) : Option FinshShell :=
  if shell.linePosition ≠ 0 then do
    let row ← historyRow shell
    if finshHistoryLines ≤ shell.historyCount then
      return { shell with
        cmdHistory := (moveHistory shell.cmdHistory).set (finshHistoryLines - 1) row
        historyCount := finshHistoryLines
        currentHistory := finshHistoryLines }
    else
      return { shell with
        cmdHistory := shell.cmdHistory.set shell.historyCount row
        historyCount := shell.historyCount + 1
        currentHistory := shell.historyCount + 1 }
  else
    some { shell with currentHistory := shell.historyCount }

/-- A line of the history is copied, measured and printed (`shell_handle_history`). -/
def copyHistory (shell : FinshShell) (index : Nat) : Option FinshShell := do
  let line ← shell.cmdHistory[index]?
  let text ← string line
  printString line
  return { shell with
    currentHistory := index
    line := line
    linePosition := text.length % 256
    lineCurpos := text.length % 256 }

/-- The up key. -/
def prevHistory (shell : FinshShell) : Option FinshShell :=
  if 0 < shell.currentHistory then
    copyHistory shell (shell.currentHistory - 1)
  else
    some { shell with currentHistory := 0 }

/-- The down key. The comparison is one of `int`. -/
def nextHistory (shell : FinshShell) : Option FinshShell :=
  if (shell.currentHistory : Int) < (shell.historyCount : Int) - 1 then
    copyHistory shell (shell.currentHistory + 1)
  else if shell.historyCount ≠ 0 then
    copyHistory shell (shell.historyCount - 1)
  else
    some shell

/-- The left key. -/
def leftKey (shell : FinshShell) : FinshShell :=
  if shell.lineCurpos ≠ 0 then { shell with lineCurpos := shell.lineCurpos - 1 } else shell

/-- The right key prints the byte it goes over. -/
def rightKey (shell : FinshShell) : Option FinshShell :=
  if shell.lineCurpos < shell.linePosition then do
    let _ ← shell.line[shell.lineCurpos]?
    return { shell with lineCurpos := (shell.lineCurpos + 1) % 256 }
  else
    some shell

/-- The control keys. The second result says that the loop goes on with the next byte. -/
def controlKey (shell : FinshShell) (ch : UInt8) : Option (FinshShell × Bool) :=
  if ch = 0x1b then
    some ({ shell with stat := .waitSpecKey }, true)
  else
    match shell.stat with
    | .waitSpecKey =>
      if ch = 0x5b then
        some ({ shell with stat := .waitFuncKey }, true)
      else
        some ({ shell with stat := .waitNormal }, false)
    | .waitFuncKey =>
      let shell := { shell with stat := .waitNormal }
      if ch = 0x41 then
        (prevHistory shell).map (·, true)
      else if ch = 0x42 then
        (nextHistory shell).map (·, true)
      else if ch = 0x44 then
        some (leftKey shell, true)
      else if ch = 0x43 then
        (rightKey shell).map (·, true)
      else
        some (shell, false)
    | .waitNormal => some (shell, false)

/-- The backspace key. -/
def backspaceKey (shell : FinshShell) : Option FinshShell :=
  if shell.lineCurpos = 0 then
    some shell
  else
    let position := (shell.linePosition + 255) % 256
    let curpos := shell.lineCurpos - 1
    if curpos < position then do
      let line ← move shell.line curpos (curpos + 1) (position - curpos)
      let line ← write line position 0
      printString (line.drop curpos)
      return { shell with line := line, linePosition := position, lineCurpos := curpos }
    else do
      let line ← write shell.line position 0
      return { shell with line := line, linePosition := position, lineCurpos := curpos }

/-- The string that `finsh_run_line` is given: it is called for a line with text only. -/
def runLine (position : Nat) (line : List UInt8) : Option (Option (List UInt8)) :=
  if position ≠ 0 then (string line).map some else some none

/-- The end of a line. -/
def endOfLine (shell : FinshShell) : Option (FinshShell × Option (List UInt8)) := do
  let shell ← shellPushHistory shell
  let line ← write shell.line shell.linePosition 0x3b
  let ran ← runLine shell.linePosition line
  return ({ shell with
    line := List.replicate finshCmdSize 0
    linePosition := 0
    lineCurpos := 0 }, ran)

/-- The echo of a byte in the middle of the line. -/
def echo (shell : FinshShell) (l : List UInt8) : Option Unit :=
  if shell.echoMode then printString l else some ()

/-- A normal character. -/
def normalChar (shell : FinshShell) (ch : UInt8) : Option FinshShell :=
  let position := if finshCmdSize ≤ shell.linePosition then 0 else shell.linePosition
  let curpos := shell.lineCurpos
  if curpos < position then do
    let line ← move shell.line (curpos + 1) curpos (position - curpos)
    let line ← write line curpos ch
    echo shell (line.drop curpos)
    return { shell with
      line := line, linePosition := (position + 1) % 256, lineCurpos := (curpos + 1) % 256 }
  else do
    let line ← write shell.line position ch
    return { shell with
      line := line, linePosition := (position + 1) % 256, lineCurpos := (curpos + 1) % 256 }

/-- The loop body behind the control keys, for a byte that may end the line. -/
def lineChar (shell : FinshShell) (ch : UInt8) : Option (FinshShell × Option (List UInt8)) :=
  if ch = 0x0d ∨ ch = 0x0a then
    endOfLine shell
  else
    (normalChar shell ch).map (·, none)

/-- The loop body behind the control keys. A carriage return is replaced by the byte behind it, if
that has arrived already. The tab key is left out. -/
def plainKey (shell : FinshShell) (key : Key) : Option (FinshShell × Option (List UInt8)) :=
  if key.ch = 0x0d then
    lineChar shell (key.next.getD 0x0d)
  else if key.ch = 0x09 then
    none
  else if key.ch = 0x7f ∨ key.ch = 0x08 then
    (backspaceKey shell).map (·, none)
  else
    lineChar shell key.ch

/-- The loop of `finsh_thread_entry` for one byte, with the string that `finsh_run_line` is given. -/
def finshThreadEntry (shell : FinshShell) (key : Key) :
    Option (FinshShell × Option (List UInt8)) := do
  let (shell, done) ← controlKey shell key.ch
  if done then return (shell, none) else plainKey shell key

/-- The shell of `finsh_system_init`, when the loop begins. -/
def finshSystemInit : FinshShell where
  stat := .waitNormal
  echoMode := true
  currentHistory := 0
  historyCount := 0
  cmdHistory := List.replicate finshHistoryLines (List.replicate finshCmdSize 0)
  line := List.replicate finshCmdSize 0
  linePosition := 0
  lineCurpos := 0

/-- The shell, and the strings that `finsh_run_line` was given so far. -/
structure Sys where
  shell : FinshShell
  ran : List (List UInt8)
  deriving DecidableEq, Repr

def step (s : Sys) (key : Key) : Option Sys := do
  let (shell, ran) ← finshThreadEntry s.shell key
  return ⟨shell, s.ran ++ ran.toList⟩

/-! ## The edited text -/

inductive Action where
  | insert (ch : UInt8)
  | backspace
  | left
  | right
  | up
  | down
  | enter
  deriving DecidableEq, Repr

/-- A text with a cursor between `before` and `after`, the last lines, the one that was looked at
last, and the commands that were run. -/
structure Editor where
  stat : InputStat
  before : List UInt8
  after : List UInt8
  history : List (List UInt8)
  current : Nat
  ran : List (List UInt8)
  deriving DecidableEq, Repr

namespace Editor

def empty : Editor := ⟨.waitNormal, [], [], [], 0, []⟩

def text (ed : Editor) : List UInt8 := ed.before ++ ed.after

/-- A line of the history becomes the text, with the cursor at its end. -/
def showHistory (ed : Editor) (i : Nat) : Editor :=
  { ed with before := ed.history.getD i [], after := [], current := i }

/-- The last lines that are kept. -/
def remember (history : List (List UInt8)) (text : List UInt8) : List (List UInt8) :=
  if text = [] then history
  else if history.length < finshHistoryLines then history ++ [text]
  else history.tail ++ [text]

/-- The text is run, followed by a semicolon. -/
def submit (ed : Editor) : Editor where
  stat := ed.stat
  before := []
  after := []
  history := remember ed.history ed.text
  current := (remember ed.history ed.text).length
  ran := if ed.text = [] then ed.ran else ed.ran ++ [ed.text ++ [0x3b]]

def apply (ed : Editor) : Action → Editor
  | .insert ch => { ed with before := ed.before ++ [ch] }
  | .backspace => { ed with before := ed.before.dropLast }
  | .left =>
    match ed.before.getLast? with
    | none => ed
    | some c => { ed with before := ed.before.dropLast, after := c :: ed.after }
  | .right =>
    match ed.after with
    | [] => ed
    | c :: rest => { ed with before := ed.before ++ [c], after := rest }
  | .up => if 0 < ed.current then ed.showHistory (ed.current - 1) else ed
  | .down =>
    if ed.history = [] then ed else ed.showHistory (min (ed.current + 1) (ed.history.length - 1))
  | .enter => ed.submit

end Editor

/-- The keys that end in `A`, `B`, `C` and `D`. -/
def cursorKey (ch : UInt8) : Option Action :=
  if ch = 0x41 then some .up
  else if ch = 0x42 then some .down
  else if ch = 0x44 then some .left
  else if ch = 0x43 then some .right
  else none

/-- The bytes that end a line. -/
def IsEnd (ch : UInt8) : Prop := ch = 0x0d ∨ ch = 0x0a

instance (ch : UInt8) : Decidable (IsEnd ch) := inferInstanceAs (Decidable (_ ∨ _))

/-- What a byte means outside of a key sequence. -/
def plainAction (ch : UInt8) : Action :=
  if IsEnd ch then .enter else if ch = 0x7f ∨ ch = 0x08 then .backspace else .insert ch

/-- What a byte means, and which bytes of a key sequence have been read. -/
def decode (stat : InputStat) (ch : UInt8) : InputStat × Option Action :=
  if ch = 0x1b then (.waitSpecKey, none)
  else
    match stat with
    | .waitSpecKey => if ch = 0x5b then (.waitFuncKey, none) else (.waitNormal, some (plainAction ch))
    | .waitFuncKey => (.waitNormal, some ((cursorKey ch).getD (plainAction ch)))
    | .waitNormal => (.waitNormal, some (plainAction ch))

def Editor.step (ed : Editor) (ch : UInt8) : Editor :=
  match decode ed.stat ch with
  | (stat, none) => { ed with stat := stat }
  | (stat, some action) => { ed with stat := stat }.apply action

/-- The bytes that the loop reads for a key: a second one behind a carriage return only. -/
def Key.bytes (key : Key) : List UInt8 := key.ch :: if key.ch = 0x0d then key.next.toList else []

/-- The editor after the bytes of a key, and after the keys. -/
def Editor.read (ed : Editor) (key : Key) : Editor := key.bytes.foldl Editor.step ed

def edited (keys : List Key) : Editor := keys.foldl Editor.read .empty

/-! ## The shell performs the actions -/

/-- The functions of the shell for the actions. -/
def perform (shell : FinshShell) : Action → Option (FinshShell × Option (List UInt8))
  | .insert ch => (normalChar shell ch).map (·, none)
  | .backspace => (backspaceKey shell).map (·, none)
  | .left => some (leftKey shell, none)
  | .right => (rightKey shell).map (·, none)
  | .up => (prevHistory shell).map (·, none)
  | .down => (nextHistory shell).map (·, none)
  | .enter => endOfLine shell

variable {shell : FinshShell} {ed : Editor} {key : Key} {ch : UInt8}

theorem lineChar_end (shell : FinshShell) (h : IsEnd ch) : lineChar shell ch = perform shell .enter := if_pos h

/-- The keys whose bytes are neither zero nor the tab key. A byte that has arrived behind a carriage return
ends a line, too. -/
structure Key.Plain (key : Key) : Prop where
  ch : key.ch ≠ 0
  tab : key.ch ≠ 0x09
  next : key.ch = 0x0d → ∀ c ∈ key.next, IsEnd c

theorem plainKey_eq (shell : FinshShell) (h : key.Plain) :
    plainKey shell key = perform shell (plainAction key.ch) := by
  by_cases hcr : key.ch = 0x0d
  · have hend : IsEnd (key.next.getD 0x0d) := by
      cases hnext : key.next with
      | none => exact .inl rfl
      | some c => exact h.next hcr c hnext
    rw [plainKey, if_pos hcr, lineChar_end shell hend, plainAction, if_pos (.inl hcr)]
  · rw [plainKey, if_neg hcr, if_neg h.tab]
    unfold plainAction lineChar IsEnd
    by_cases hlf : key.ch = 0x0a
    · simp [hlf, perform]
    · split <;> simp [*, perform]

/-- A control key that was read to its end. -/
theorem finshThreadEntry_done {r : Option FinshShell}
    (h : controlKey shell key.ch = r.map (·, true)) :
    finshThreadEntry shell key = r.map (·, none) := by
  rw [finshThreadEntry, h]
  cases r <;> rfl

theorem finshThreadEntry_plain {shell' : FinshShell} (hplain : key.Plain)
    (h : controlKey shell key.ch = some (shell', false)) :
    finshThreadEntry shell key = perform shell' (plainAction key.ch) := by
  rw [finshThreadEntry, h]
  exact plainKey_eq shell' hplain

/-- The last byte of a key sequence. -/
theorem finshThreadEntry_funcKey (hstat : shell.stat = .waitFuncKey) (hesc : key.ch ≠ 0x1b)
    (hplain : key.Plain) :
    finshThreadEntry shell key = perform { shell with stat := .waitNormal }
      ((cursorKey key.ch).getD (plainAction key.ch)) := by
  have hcontrol : controlKey shell key.ch =
      (let shell := { shell with stat := .waitNormal }
       if key.ch = 0x41 then (prevHistory shell).map (·, true)
       else if key.ch = 0x42 then (nextHistory shell).map (·, true)
       else if key.ch = 0x44 then some (leftKey shell, true)
       else if key.ch = 0x43 then (rightKey shell).map (·, true)
       else some (shell, false)) := by
    rw [controlKey, if_neg hesc, hstat]
  unfold cursorKey
  split_ifs with hup hdown hleft hright
  · exact finshThreadEntry_done (hcontrol.trans (if_pos hup))
  · exact finshThreadEntry_done (hcontrol.trans (by rw [if_neg hup, if_pos hdown]))
  · exact finshThreadEntry_done (r := some _) (hcontrol.trans (by simp [hleft]))
  · exact finshThreadEntry_done (hcontrol.trans (by simp [hright]))
  · exact finshThreadEntry_plain hplain (hcontrol.trans (by simp [hup, hdown, hleft, hright]))

/-- What the shell does with a decoded byte. -/
def follow (shell : FinshShell) : InputStat × Option Action → Option (FinshShell × Option (List UInt8))
  | (stat, none) => some ({ shell with stat := stat }, none)
  | (stat, some action) => perform { shell with stat := stat } action

/-- The loop decodes a byte and performs what it means. -/
theorem finshThreadEntry_eq (shell : FinshShell) (hplain : key.Plain) :
    finshThreadEntry shell key = follow shell (decode shell.stat key.ch) := by
  by_cases hesc : key.ch = 0x1b
  · simp [finshThreadEntry, controlKey, decode, hesc, follow]
  · unfold decode
    rw [if_neg hesc]
    cases hstat : shell.stat with
    | waitNormal =>
      have hsame : { shell with stat := .waitNormal } = shell := by rw [← hstat]
      rw [finshThreadEntry_plain hplain (by rw [controlKey, if_neg hesc, hstat]), follow, hsame]
    | waitSpecKey =>
      by_cases hbracket : key.ch = 0x5b
      · simp [finshThreadEntry, controlKey, hstat, hbracket, follow]
      · rw [finshThreadEntry_plain hplain (by rw [controlKey, if_neg hesc, hstat]; exact if_neg hbracket),
          if_neg hbracket, follow]
    | waitFuncKey => exact finshThreadEntry_funcKey hstat hesc hplain

/-! ## The shell shows the edited text -/

/-- A text that fits into the line together with a semicolon and a zero. -/
structure Fits (text : List UInt8) : Prop where
  nonzero : 0 ∉ text
  short : text.length ≤ 78

theorem Fits.nil : Fits [] := ⟨by simp, by simp⟩

theorem Fits.string {text : List UInt8} (h : Fits text) :
    string (pad finshCmdSize text) = some text :=
  string_pad h.nonzero (Nat.lt_of_le_of_lt h.short (by decide))

theorem Fits.printString {text : List UInt8} {i : Nat} (h : Fits text) (hi : i ≤ text.length) :
    printString ((pad finshCmdSize text).drop i) = some () := by
  have hlt : text.length < finshCmdSize := Nat.lt_of_le_of_lt h.short (by decide)
  rw [Shell.printString, drop_pad hi, string_pad (fun hmem => h.nonzero (List.mem_of_mem_drop hmem))]
  · rfl
  · rw [List.length_drop]
    omega

/-- The first rows of the history hold the lines. -/
structure Holds (rows history : List (List UInt8)) : Prop where
  length : rows.length = finshHistoryLines
  le : history.length ≤ finshHistoryLines
  row : ∀ (i : Nat) (text : List UInt8), history[i]? = some text → rows[i]? = some (pad finshCmdSize text) ∧ Fits text

structure Shows (shell : FinshShell) (ed : Editor) : Prop where
  stat : shell.stat = ed.stat
  line : shell.line = pad finshCmdSize ed.text
  position : shell.linePosition = ed.text.length
  curpos : shell.lineCurpos = ed.before.length
  fits : Fits ed.text
  history : Holds shell.cmdHistory ed.history
  count : shell.historyCount = ed.history.length
  current : shell.currentHistory = ed.current
  current_le : ed.current ≤ ed.history.length

theorem shows_init : Shows finshSystemInit .empty := by
  refine ⟨rfl, rfl, rfl, rfl, .nil, ⟨rfl, ?_, ?_⟩, rfl, rfl, ?_⟩ <;> simp [Editor.empty]

theorem length_text (ed : Editor) : ed.text.length = ed.before.length + ed.after.length :=
  List.length_append

section

variable (h : Shows shell ed)

include h

theorem Shows.length_lt : ed.text.length < finshCmdSize :=
  Nat.lt_of_le_of_lt h.fits.short (by decide)

/-- The text changes, and the history does not. -/
theorem Shows.edit {before after : List UInt8} (position curpos : Nat)
    (hfits : Fits (before ++ after)) (hposition : position = before.length + after.length)
    (hcurpos : curpos = before.length) :
    Shows { shell with
      line := pad finshCmdSize (before ++ after), linePosition := position, lineCurpos := curpos }
      { ed with before := before, after := after } := by
  refine ⟨h.stat, rfl, ?_, hcurpos, hfits, h.history, h.count, h.current, h.current_le⟩
  rw [hposition, length_text]

theorem Shows.normalChar (hch : ch ≠ 0) (hshort : (ed.apply (.insert ch)).text.length ≤ 78) :
    ∃ shell', Shell.normalChar shell ch = some shell' ∧ Shows shell' (ed.apply (.insert ch)) := by
  have hfits : Fits (ed.before ++ [ch] ++ ed.after) := by
    have hnonzero := h.fits.nonzero
    simp only [Editor.text, List.mem_append, not_or] at hnonzero
    exact ⟨by simp [hnonzero.1, hnonzero.2, Ne.symm hch], hshort⟩
  have hlen := hfits.short
  simp only [List.length_append, List.length_singleton] at hlen
  have hpos := h.position
  rw [length_text] at hpos
  have hcur := h.curpos
  have hshows := h.edit ((shell.linePosition + 1) % 256) ((shell.lineCurpos + 1) % 256) hfits
    (by simp only [List.length_append, List.length_singleton]; omega)
    (by simp only [List.length_append, List.length_singleton]; omega)
  refine ⟨_, ?_, hshows⟩
  unfold Shell.normalChar
  rw [if_neg (Nat.not_le.mpr (h.position ▸ h.length_lt))]
  by_cases hafter : ed.after = []
  · have hend : ¬ shell.lineCurpos < shell.linePosition := by
      simp [hcur, hpos, hafter]
    have htext : ed.text = ed.before := by simp [Editor.text, hafter]
    have hwrite : write shell.line shell.linePosition ch =
        some (pad finshCmdSize (ed.before ++ [ch] ++ ed.after)) := by
      rw [h.line, h.position, write_pad h.length_lt, htext, hafter, List.append_nil]
    rw [if_neg hend, hwrite]
    rfl
  · have hmiddle : shell.lineCurpos < shell.linePosition := by
      rw [hcur, hpos]
      exact Nat.lt_add_of_pos_right (List.length_pos_iff.mpr hafter)
    have hcount : shell.linePosition - shell.lineCurpos = ed.after.length := by
      rw [hcur, hpos, Nat.add_sub_cancel_left]
    obtain ⟨l, hmove, hwrite⟩ := Option.bind_eq_some_iff.mp (insert_pad h.length_lt hafter ch)
    have happend : ed.before ++ ch :: ed.after = ed.before ++ [ch] ++ ed.after := by simp
    have hecho : echo shell ((pad finshCmdSize (ed.before ++ [ch] ++ ed.after)).drop ed.before.length) =
        some () := by
      unfold echo
      split
      · exact hfits.printString (by simp)
      · rfl
    rw [happend] at hwrite
    rw [if_pos hmiddle, hcount, hcur, h.line]
    simp only [Editor.text, Option.bind_eq_bind, hmove, Option.bind_some, hwrite, hecho]
    rfl

theorem Shows.backspaceKey :
    ∃ shell', Shell.backspaceKey shell = some shell' ∧ Shows shell' (ed.apply .backspace) := by
  rcases List.eq_nil_or_concat ed.before with hnil | ⟨before, c, hconcat⟩
  · have hsame : ed.apply .backspace = ed := by
      rw [Editor.apply, hnil, List.dropLast_nil, ← hnil]
    have hcur : shell.lineCurpos = 0 := by rw [h.curpos, hnil, List.length_nil]
    rw [hsame, Shell.backspaceKey, if_pos hcur]
    exact ⟨shell, rfl, h⟩
  · rw [List.concat_eq_append] at hconcat
    have happly : ed.apply .backspace = { ed with before := before, after := ed.after } := by
      rw [Editor.apply, hconcat, List.dropLast_concat]
    have htext : ed.text = before ++ c :: ed.after := by simp [Editor.text, hconcat]
    have hfits : Fits (before ++ ed.after) := by
      obtain ⟨hnonzero, hshort⟩ := htext ▸ h.fits
      refine ⟨fun hmem => hnonzero ?_, ?_⟩
      · rcases List.mem_append.mp hmem with hmem | hmem <;> simp [hmem]
      · simp only [List.length_append, List.length_cons] at hshort ⊢
        omega
    have hcur : shell.lineCurpos = before.length + 1 := by rw [h.curpos, hconcat]; simp
    have hpos : shell.linePosition = before.length + ed.after.length + 1 := by
      rw [h.position, htext]
      simp only [List.length_append, List.length_cons]
      omega
    have hlen := h.length_lt
    rw [← h.position, hpos] at hlen
    have hposition : (shell.linePosition + 255) % 256 = (before ++ ed.after).length := by
      rw [hpos, List.length_append]
      unfold finshCmdSize at hlen
      omega
    have hcurpos : shell.lineCurpos - 1 = before.length := by rw [hcur, Nat.add_sub_cancel]
    have hshows := h.edit _ _ hfits List.length_append rfl
    rw [happly]
    refine ⟨_, ?_, hshows⟩
    unfold Shell.backspaceKey
    rw [if_neg (by omega), hposition, hcurpos, h.line, htext]
    by_cases hafter : ed.after = []
    · have hend : ¬ before.length < (before ++ ed.after).length := by simp [hafter]
      have hwrite : write (pad finshCmdSize (before ++ [c])) before.length 0 =
          some (pad finshCmdSize before) := by
        rw [pad_append_singleton, write_append, ← pad_eq_cons (by omega)]
      rw [if_neg hend]
      simp only [hafter, List.append_nil, hwrite]
      rfl
    · have hmiddle : before.length < (before ++ ed.after).length := by
        rw [List.length_append]
        exact Nat.lt_add_of_pos_right (List.length_pos_iff.mpr hafter)
      have hcount : (before ++ ed.after).length - before.length = ed.after.length := by
        rw [List.length_append, Nat.add_sub_cancel_left]
      have hle : (before ++ c :: ed.after).length ≤ finshCmdSize := htext ▸ Nat.le_of_lt h.length_lt
      obtain ⟨l, hmove, hwrite⟩ := Option.bind_eq_some_iff.mp (delete_pad hle)
      have hprint := hfits.printString (i := before.length) (by simp)
      rw [if_pos hmiddle, hcount]
      simp only [Option.bind_eq_bind, hmove, Option.bind_some, hwrite, hprint]
      rfl

theorem Shows.leftKey : Shows (Shell.leftKey shell) (ed.apply .left) := by
  rcases List.eq_nil_or_concat ed.before with hnil | ⟨before, c, hconcat⟩
  · have hcur : ¬ shell.lineCurpos ≠ 0 := by simp [h.curpos, hnil]
    have hsame : ed.apply .left = ed := by simp [Editor.apply, hnil]
    rw [Shell.leftKey, if_neg hcur, hsame]
    exact h
  · rw [List.concat_eq_append] at hconcat
    have happly : ed.apply .left = { ed with before := before, after := c :: ed.after } := by
      simp [Editor.apply, hconcat]
    have htext : ed.text = before ++ c :: ed.after := by simp [Editor.text, hconcat]
    have hcur : shell.lineCurpos = before.length + 1 := by rw [h.curpos, hconcat]; simp
    have hshows := h.edit shell.linePosition (shell.lineCurpos - 1)
      (htext ▸ h.fits) (by rw [h.position, htext, List.length_append]) (by omega)
    rw [Shell.leftKey, if_pos (by omega), happly]
    rw [← htext, ← h.line] at hshows
    exact hshows

theorem Shows.rightKey :
    ∃ shell', Shell.rightKey shell = some shell' ∧ Shows shell' (ed.apply .right) := by
  have hpos := h.position
  rw [length_text] at hpos
  cases hafter : ed.after with
  | nil =>
    have hend : ¬ shell.lineCurpos < shell.linePosition := by simp [h.curpos, hpos, hafter]
    have hsame : ed.apply .right = ed := by simp [Editor.apply, hafter]
    rw [hsame, Shell.rightKey, if_neg hend]
    exact ⟨shell, rfl, h⟩
  | cons c rest =>
    have hmiddle : shell.lineCurpos < shell.linePosition := by simp [h.curpos, hpos, hafter]
    have happly : ed.apply .right = { ed with before := ed.before ++ [c], after := rest } := by
      simp [Editor.apply, hafter]
    have htext : ed.text = ed.before ++ [c] ++ rest := by simp [Editor.text, hafter]
    have hread : shell.line[shell.lineCurpos]? = some c := by
      simp [h.line, h.curpos, pad, Editor.text, hafter]
    have hlen := h.fits.short
    rw [length_text, hafter, List.length_cons] at hlen
    have hshows := h.edit shell.linePosition ((shell.lineCurpos + 1) % 256)
      (htext ▸ h.fits) (by rw [h.position, htext, List.length_append])
      (by rw [h.curpos, List.length_append, List.length_singleton]; omega)
    rw [← htext, ← h.line] at hshows
    rw [happly, Shell.rightKey, if_pos hmiddle, hread]
    exact ⟨_, rfl, hshows⟩

theorem Shows.copyHistory {i : Nat} (hi : i < ed.history.length) :
    ∃ shell', Shell.copyHistory shell i = some shell' ∧ Shows shell' (ed.showHistory i) := by
  obtain ⟨text, htext⟩ : ∃ text, ed.history[i]? = some text := ⟨_, List.getElem?_eq_getElem hi⟩
  obtain ⟨hrow, hfits⟩ := h.history.row i text htext
  have hprint := hfits.printString (Nat.zero_le _)
  have hmod : text.length % 256 = text.length := Nat.mod_eq_of_lt (by have := hfits.short; omega)
  rw [List.drop_zero] at hprint
  refine ⟨{ shell with
    currentHistory := i
    line := pad finshCmdSize text
    linePosition := text.length
    lineCurpos := text.length }, ?_, ?_⟩
  · simp [Shell.copyHistory, hrow, hfits.string, hprint, hmod]
  · have htext' : (ed.showHistory i).text = text := by simp [Editor.text, Editor.showHistory, htext]
    refine ⟨h.stat, by rw [htext'], by rw [htext'], ?_, htext' ▸ hfits, h.history, h.count, rfl, ?_⟩
    · simp [Editor.showHistory, htext]
    · exact Nat.le_of_lt hi

theorem Shows.prevHistory :
    ∃ shell', Shell.prevHistory shell = some shell' ∧ Shows shell' (ed.apply .up) := by
  unfold Shell.prevHistory Editor.apply
  rw [h.current]
  by_cases hpos : 0 < ed.current
  · rw [if_pos hpos, if_pos hpos]
    exact h.copyHistory (by have := h.current_le; omega)
  · rw [if_neg hpos, if_neg hpos]
    have hzero : shell.currentHistory = 0 := by rw [h.current]; omega
    exact ⟨_, rfl, hzero ▸ h⟩

theorem Shows.nextHistory :
    ∃ shell', Shell.nextHistory shell = some shell' ∧ Shows shell' (ed.apply .down) := by
  unfold Shell.nextHistory Editor.apply
  rw [h.current, h.count]
  by_cases hnil : ed.history = []
  · have hlt : ¬ (ed.current : Int) < (ed.history.length : Int) - 1 := by
      rw [hnil, List.length_nil]
      omega
    rw [if_pos hnil, if_neg hlt, if_neg (by simp [hnil])]
    exact ⟨shell, rfl, h⟩
  · have hpos := List.length_pos_iff.mpr hnil
    rw [if_neg hnil]
    by_cases hlt : (ed.current : Int) < (ed.history.length : Int) - 1
    · rw [if_pos hlt, Nat.min_eq_left (by omega)]
      exact h.copyHistory (by omega)
    · rw [if_neg hlt, if_pos (by omega), Nat.min_eq_right (by omega)]
      exact h.copyHistory (by omega)

end

/-- A row is added behind the lines. -/
theorem Holds.add {rows history : List (List UInt8)} {text : List UInt8} (h : Holds rows history)
    (hfits : Fits text) (hlt : history.length < finshHistoryLines) :
    Holds (rows.set history.length (pad finshCmdSize text)) (history ++ [text]) := by
  refine ⟨by rw [List.length_set, h.length], by rw [List.length_append]; exact hlt, ?_⟩
  intro i text' hi
  rcases Nat.lt_trichotomy i history.length with hlt' | rfl | hgt
  · rw [List.getElem?_append_left hlt'] at hi
    rw [List.getElem?_set_ne (Nat.ne_of_gt hlt')]
    exact h.row i text' hi
  · rw [List.getElem?_concat_length] at hi
    cases hi
    exact ⟨List.getElem?_set_self (h.length ▸ hlt), hfits⟩
  · rw [List.getElem?_eq_none (by rw [List.length_append]; exact hgt)] at hi
    cases hi

/-- The loop moves every row but the first down by one. -/
theorem Holds.moveHistory {rows history : List (List UInt8)} (h : Holds rows history) :
    Holds (Shell.moveHistory rows) history.tail := by
  obtain ⟨hrows, hle, hrow⟩ := h
  match rows, hrows with
  | [_, _, _, _, _], _ =>
    refine ⟨rfl, by rw [List.length_tail]; omega, fun i text hi => ?_⟩
    rw [List.getElem?_tail] at hi
    have hnext := hrow (i + 1) text hi
    match i with
    | 0 | 1 | 2 | 3 => exact hnext
    | i + 4 => cases hnext.1

section

variable (h : Shows shell ed)

include h

theorem Shows.historyRow : Shell.historyRow shell = some (pad finshCmdSize ed.text) := by
  have hle : shell.linePosition ≤ finshCmdSize := h.position ▸ Nat.le_of_lt h.length_lt
  rw [Shell.historyRow, if_pos hle, h.line, h.position, take_pad]

/-- The history after the end of a line, and the rest of the shell as it was. -/
theorem Shows.shellPushHistory :
    ∃ rows, Shell.shellPushHistory shell = some { shell with
        cmdHistory := rows
        historyCount := (Editor.remember ed.history ed.text).length
        currentHistory := (Editor.remember ed.history ed.text).length } ∧
      Holds rows (Editor.remember ed.history ed.text) := by
  unfold Shell.shellPushHistory Editor.remember
  by_cases hnil : ed.text = []
  · have hzero : ¬ shell.linePosition ≠ 0 := by simp [h.position, hnil]
    rw [if_neg hzero, if_pos hnil, ← h.count]
    exact ⟨shell.cmdHistory, rfl, h.history⟩
  · have hpos : shell.linePosition ≠ 0 := by simp [h.position, hnil]
    rw [if_pos hpos, if_neg hnil, h.historyRow]
    by_cases hlt : ed.history.length < finshHistoryLines
    · rw [if_pos hlt]
      refine ⟨_, ?_, h.history.add h.fits hlt⟩
      simp only [Option.bind_eq_bind, Option.bind_some, h.count, if_neg (Nat.not_le.mpr hlt),
        List.length_append, List.length_singleton]
      rfl
    · have hfull : ed.history.length = finshHistoryLines :=
        Nat.le_antisymm h.history.le (Nat.le_of_not_lt hlt)
      rw [if_neg hlt]
      have hless : ed.history.tail.length = finshHistoryLines - 1 := by rw [List.length_tail, hfull]
      refine ⟨_, ?_, h.history.moveHistory.add h.fits (by rw [hless]; decide)⟩
      simp only [Option.bind_eq_bind, Option.bind_some, h.count, List.length_append, hless, hfull]
      rfl

/-- The string of the line with the semicolon. -/
theorem Shows.runLine :
    Shell.runLine ed.text.length (pad finshCmdSize (ed.text ++ [0x3b])) =
      some (if ed.text = [] then none else some (ed.text ++ [0x3b])) := by
  unfold Shell.runLine
  by_cases hnil : ed.text = []
  · rw [if_pos hnil, if_neg (by simp [hnil])]
  · have hnonzero : (0 : UInt8) ∉ ed.text ++ [0x3b] := by simp [h.fits.nonzero]
    have hlt : (ed.text ++ [0x3b]).length < finshCmdSize := by
      rw [List.length_append]
      exact Nat.lt_of_le_of_lt (Nat.succ_le_succ h.fits.short) (by decide)
    rw [if_neg hnil, if_pos (by simpa using hnil), string_pad hnonzero hlt]
    rfl

theorem Shows.endOfLine :
    ∃ shell' ran, Shell.endOfLine shell = some (shell', ran) ∧ Shows shell' (ed.apply .enter) ∧
      (ed.apply .enter).ran = ed.ran ++ ran.toList := by
  obtain ⟨rows, hpush, hrows⟩ := h.shellPushHistory
  have hwrite : write shell.line shell.linePosition 0x3b =
      some (pad finshCmdSize (ed.text ++ [0x3b])) := by
    rw [h.line, h.position, write_pad h.length_lt]
  have hrun := h.runLine
  rw [← h.position] at hrun
  refine ⟨{ shell with
    cmdHistory := rows
    historyCount := (Editor.remember ed.history ed.text).length
    currentHistory := (Editor.remember ed.history ed.text).length
    line := List.replicate finshCmdSize 0
    linePosition := 0
    lineCurpos := 0 }, if ed.text = [] then none else some (ed.text ++ [0x3b]), ?_, ?_, ?_⟩
  · simp only [Shell.endOfLine, Option.bind_eq_bind, hpush, Option.bind_some, hwrite, hrun]
    rfl
  · exact ⟨h.stat, rfl, rfl, rfl, .nil, hrows, rfl, rfl, Nat.le_refl _⟩
  · rw [Editor.apply, Editor.submit]
    split <;> simp

/-- Every action of the shell is the one of the editor. -/
theorem Shows.perform {action : Action} (hch : ∀ ch, action = .insert ch → ch ≠ 0)
    (hshort : (ed.apply action).text.length ≤ 78) :
    ∃ shell' ran, Shell.perform shell action = some (shell', ran) ∧ Shows shell' (ed.apply action) ∧
      (ed.apply action).ran = ed.ran ++ ran.toList := by
  have hquiet {r : Option FinshShell} (hr : ∃ shell', r = some shell' ∧ Shows shell' (ed.apply action))
      (hran : (ed.apply action).ran = ed.ran) : ∃ shell' ran, r.map (·, none) = some (shell', ran) ∧
        Shows shell' (ed.apply action) ∧
        (ed.apply action).ran = ed.ran ++ (ran : Option (List UInt8)).toList := by
    obtain ⟨shell', rfl, hshows⟩ := hr
    exact ⟨shell', none, rfl, hshows, by simp [hran]⟩
  cases action with
  | insert ch => exact hquiet (h.normalChar (hch ch rfl) hshort) rfl
  | backspace => exact hquiet h.backspaceKey rfl
  | left => exact hquiet ⟨_, rfl, h.leftKey⟩ (by rw [Editor.apply]; split <;> rfl)
  | right => exact hquiet h.rightKey (by rw [Editor.apply]; split <;> rfl)
  | up => exact hquiet h.prevHistory (by rw [Editor.apply]; split <;> rfl)
  | down => exact hquiet h.nextHistory (by rw [Editor.apply]; split <;> rfl)
  | enter => exact h.endOfLine

/-! ## Runs -/

end

/-- Only bytes that were read are inserted. -/
theorem decode_insert {stat stat' : InputStat} {c : UInt8} (hdecode : decode stat c = (stat', some (.insert ch))) :
    ch = c := by
  have hplain (h : plainAction c = .insert ch) : ch = c := by
    unfold plainAction at h
    split_ifs at h
    cases h
    rfl
  unfold decode at hdecode
  split at hdecode
  · cases hdecode
  · cases stat with
    | waitNormal => exact hplain (Option.some.inj (Prod.mk.inj hdecode).2)
    | waitSpecKey =>
      dsimp only at hdecode
      split at hdecode
      · cases hdecode
      · exact hplain (Option.some.inj (Prod.mk.inj hdecode).2)
    | waitFuncKey =>
      have haction := Option.some.inj (Prod.mk.inj hdecode).2
      unfold cursorKey at haction
      split_ifs at haction
      all_goals first | cases haction | exact hplain haction

/-- A line end behind another one does nothing. -/
theorem step_end_end {c : UInt8} (hc : IsEnd ch) (hc' : IsEnd c) : (ed.step ch).step c = ed.step ch := by
  have hdecode {c : UInt8} (hc : IsEnd c) (stat : InputStat) : decode stat c = (.waitNormal, some .enter) := by
    rcases hc with rfl | rfl <;> cases stat <;> rfl
  have hstep {c : UInt8} (hc : IsEnd c) (ed : Editor) : ed.step c = { ed with stat := .waitNormal }.submit := by
    rw [Editor.step, hdecode hc]
    rfl
  rw [hstep hc', hstep hc]
  simp [Editor.submit, Editor.text, Editor.remember]

/-- The second byte of a carriage return changes nothing. -/
theorem Key.Plain.read_eq (h : key.Plain) (ed : Editor) : ed.read key = ed.step key.ch := by
  unfold Editor.read Key.bytes
  split
  next hcr =>
    cases hnext : key.next with
    | none => rfl
    | some c => exact step_end_end (.inl hcr) (h.next hcr c hnext)
  next => rfl

/-- The shell and the strings it has run are those of the editor. -/
structure Follows (s : Sys) (ed : Editor) : Prop where
  shows : Shows s.shell ed
  ran : s.ran = ed.ran

theorem Follows.step {s : Sys} (h : Follows s ed) (hplain : key.Plain)
    (hshort : (ed.read key).text.length ≤ 78) :
    ∃ s', Shell.step s key = some s' ∧ Follows s' (ed.read key) := by
  obtain ⟨hshows, hran⟩ := h
  have hentry := finshThreadEntry_eq s.shell hplain
  rw [hshows.stat] at hentry
  rw [hplain.read_eq] at hshort ⊢
  unfold Editor.step at hshort ⊢
  rcases hdecode : decode ed.stat key.ch with ⟨stat, _ | action⟩
  · rw [hdecode] at hentry
    refine ⟨⟨{ s.shell with stat := stat }, s.ran⟩, ?_, ⟨?_, hran⟩⟩
    · rw [Shell.step, hentry]
      simp [follow]
    · exact ⟨rfl, hshows.line, hshows.position, hshows.curpos, hshows.fits, hshows.history, hshows.count,
        hshows.current, hshows.current_le⟩
  · rw [hdecode] at hentry hshort
    have hshows' : Shows { s.shell with stat := stat } { ed with stat := stat } :=
      ⟨rfl, hshows.line, hshows.position, hshows.curpos, hshows.fits, hshows.history, hshows.count,
        hshows.current, hshows.current_le⟩
    have hinsert : ∀ ch, action = .insert ch → ch ≠ 0 := by
      rintro ch rfl
      exact decode_insert hdecode ▸ hplain.ch
    obtain ⟨shell', ran, hperform, hshows'', hran'⟩ := hshows'.perform hinsert hshort
    refine ⟨⟨shell', s.ran ++ ran.toList⟩, ?_, ⟨hshows'', ?_⟩⟩
    · rw [Shell.step, hentry, follow, hperform]
      rfl
    · rw [hran, hran']

/-- As long as the edited text has at most 78 bytes and only line ends are read together with a carriage
return, the shell stays inside of its arrays, its line holds the text and zeros behind it,
and `finsh_run_line` is given the text and a semicolon. -/
theorem line_editor_in_bounds {keys : List Key} (hplain : ∀ key ∈ keys, key.Plain)
    (hshort : ∀ keys', keys' <+: keys → (edited keys').text.length ≤ 78) :
    ∃ s, run step ⟨finshSystemInit, []⟩ keys = some s ∧
      s.shell.lineCurpos ≤ s.shell.linePosition ∧ s.shell.linePosition ≤ finshCmdSize - 1 ∧
      s.shell.line.length = finshCmdSize ∧
      (∀ i, s.shell.linePosition ≤ i → i < finshCmdSize → s.shell.line[i]? = some 0) ∧
      s.shell.line.take s.shell.linePosition = (edited keys).text ∧
      s.shell.lineCurpos = (edited keys).before.length ∧
      s.ran = (edited keys).ran := by
  have hstep : ∀ s ed key, Follows s ed → key.Plain → (Editor.read ed key).text.length ≤ 78 →
      ∃ s', step s key = some s' ∧ Follows s' (ed.read key) :=
    fun s ed key h hkey hlen => h.step hkey hlen
  have hstart : Follows ⟨finshSystemInit, []⟩ .empty := ⟨shows_init, rfl⟩
  obtain ⟨s, hrun, hshows, hran⟩ :=
    run_simulates (P := fun ed : Editor => ed.text.length ≤ 78) hstep hstart hplain hshort
  have hle : s.shell.linePosition ≤ finshCmdSize - 1 := by
    rw [hshows.position]
    exact Nat.le_trans hshows.fits.short (by decide)
  refine ⟨s, hrun, ?_, hle, ?_, fun i hi hsize => ?_, ?_, hshows.curpos, hran⟩
  · rw [hshows.curpos, hshows.position, length_text]
    exact Nat.le_add_right _ _
  · rw [hshows.line, length_pad (Nat.le_of_lt hshows.length_lt)]
  · rw [hshows.line, getElem?_pad (hshows.position ▸ hi) hsize]
  · rw [hshows.line, hshows.position, take_pad]
    rfl

/-- `ab`, the left key, `c`, a carriage return with a line feed, and the up key. -/
def threeLetters : List Key :=
  [⟨0x61, none⟩, ⟨0x62, none⟩, ⟨0x1b, none⟩, ⟨0x5b, none⟩, ⟨0x44, none⟩, ⟨0x63, none⟩,
    ⟨0x0d, some 0x0a⟩, ⟨0x1b, none⟩, ⟨0x5b, none⟩, ⟨0x41, none⟩]

theorem line_editor_in_bounds_recalled :
    ∃ s, run step ⟨finshSystemInit, []⟩ threeLetters = some s ∧
      s.ran = [[0x61, 0x63, 0x62, 0x3b]] ∧ s.shell.line.take s.shell.linePosition = [0x61, 0x63, 0x62] ∧
      s.shell.lineCurpos = 3 := by
  have hplain : ∀ key ∈ threeLetters, key.Plain := by
    intro key hkey
    have hall : ∀ key ∈ threeLetters, key.ch ≠ 0 ∧ key.ch ≠ 0x09 ∧
        (key.ch = 0x0d → ∀ c ∈ key.next, IsEnd c) := by decide +kernel
    obtain ⟨hch, htab, hnext⟩ := hall key hkey
    exact ⟨hch, htab, hnext⟩
  have hshort : ∀ keys', keys' <+: threeLetters → (edited keys').text.length ≤ 78 := by
    have hall : ∀ keys' ∈ threeLetters.inits, (edited keys').text.length ≤ 78 := by decide
    exact fun keys' hkeys => hall keys' ((List.mem_inits _ _).mpr hkeys)
  obtain ⟨s, hrun, -, -, -, -, htext, hcurpos, hran⟩ := line_editor_in_bounds hplain hshort
  have hedited : (edited threeLetters).text = [0x61, 0x63, 0x62] ∧
      (edited threeLetters).before.length = 3 ∧
      (edited threeLetters).ran = [[0x61, 0x63, 0x62, 0x3b]] := by decide
  exact ⟨s, hrun, hran.trans hedited.2.2, htext.trans hedited.1, hcurpos.trans hedited.2.1⟩

/-! ## Long lines -/

/-- The letter `a` is typed `n` times into a fresh line. -/
def typed (n : Nat) : Sys := endState step ⟨finshSystemInit, []⟩ (List.replicate n ⟨0x61, none⟩)

/-- `a`, a carriage return behind which `b` has arrived, and a line feed. -/
def letterBehindReturn : List Key := [⟨0x61, none⟩, ⟨0x0d, some 0x62⟩, ⟨0x0a, none⟩]

/-- With 80 letters the position is outside of the line, and the semicolon would be written there.
With 79 letters the semicolon takes the place of the last zero. And a carriage return is lost to the
letter behind it. -/
theorem long_line_out_of_bounds :
    run step ⟨finshSystemInit, []⟩ (List.replicate 80 ⟨0x61, none⟩) = some (typed 80) ∧
    (typed 80).shell.linePosition = finshCmdSize ∧
    write (typed 80).shell.line (typed 80).shell.linePosition 0x3b = none ∧
    run step ⟨finshSystemInit, []⟩ (List.replicate 79 ⟨0x61, none⟩) = some (typed 79) ∧
    (∃ line, write (typed 79).shell.line (typed 79).shell.linePosition 0x3b = some line ∧
      string line = none) ∧
    (run step ⟨finshSystemInit, []⟩ letterBehindReturn).map Sys.ran = some [[0x61, 0x62, 0x3b]] ∧
    (edited letterBehindReturn).ran = [[0x61, 0x3b], [0x62, 0x3b]] := by
  have hfull : ∃ line ∈ write (typed 79).shell.line (typed 79).shell.linePosition 0x3b, string line = none := by
    decide +kernel
  exact ⟨run_endState (by decide +kernel), by decide +kernel, by decide +kernel, run_endState (by decide +kernel),
    hfull, by decide +kernel, by decide⟩

end RtThread.Shell
