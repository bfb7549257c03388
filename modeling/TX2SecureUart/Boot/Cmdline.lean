/-
# `Boot.Cmdline` — the kernel command line in `s_cmdline`

`tegrabl_linuxboot_prepare_cmdline`: `init_cmd_list` copies the command line of
the DTB with one blank between parameters and without `ignorefastboot`, then the
command line of the boot image and the parameters of the tables are appended,
those that `does_command_exist` finds apart.

An access outside of `s_cmdline` is `none`.  A hook that appends a parameter comes
from outside: it writes within the length it is given and may return anything.
-/
import TX2SecureUart.Lib.QuotedWords
import TX2SecureUart.Lib.Writes

namespace TX2SecureUart.Cmdline

open Writes (overwrite length_overwrite)

abbrev commandLineSize : Nat := 2048

/-- A string, its terminator apart. -/
structure CString where
  chars : List UInt8
  noNul : 0 ∉ chars

abbrev quoteChar : UInt8 := 0x22
abbrev space : UInt8 := 0x20
abbrev equals : UInt8 := 0x3D

def isWhitespace (ch : UInt8) : Bool := ch = space || ch = 0x09 || ch = 0x0A || ch = 0x0D

/-- `ignorefastboot` -/
abbrev ignoreFastbootCmd : List UInt8 :=
  [0x69, 0x67, 0x6E, 0x6F, 0x72, 0x65, 0x66, 0x61, 0x73, 0x74, 0x62, 0x6F, 0x6F, 0x74]

/-- The static variables. -/
structure Statics where
  sCmdline : List UInt8
  size : sCmdline.length = commandLineSize
  nOrigCmdlen : Nat
  nOrigCmdlen_lt : nOrigCmdlen < commandLineSize
  nIgnoreFastboot : Bool

/-! ## `init_cmd_list` -/

/-- The variables of the loop; `inParam` is the mood 1. -/
structure InitState where
  sCmdline : List UInt8
  size : sCmdline.length = commandLineSize
  next : Nat
  start : Nat
  inParam : Bool
  quote : Bool
  nIgnoreFastboot : Bool

/-- `s_cmdline[next++] = c` -/
def InitState.put (c : UInt8) (s : InitState) : Option InitState :=
  if s.next < commandLineSize then
    some { s with
      sCmdline := s.sCmdline.set s.next c
      size := List.length_set.trans s.size
      next := s.next + 1 }
  else none

/-- What `check_ignore_fastboot_cmd` makes of a zero `n_ignore_fastboot`; `start` is
where a character was written. -/
def checkIgnoreFastbootCmd (sCmdline cmd : List UInt8) (start fin : Nat) : Bool :=
  if sCmdline[start]? = some quoteChar then
    if cmd.length + 2 = fin - start ∧ sCmdline[fin - 1]? = some quoteChar then
      (sCmdline.drop (start + 1)).take cmd.length = cmd
    else false
  else if cmd.length = fin - start then (sCmdline.drop start).take cmd.length = cmd
  else false

/-- Take `ignorefastboot` back, if it is the last parameter and the first such. -/
def InitState.checkIgnored (s : InitState) : InitState :=
  if s.nIgnoreFastboot then s else
  if checkIgnoreFastbootCmd s.sCmdline ignoreFastbootCmd s.start s.next then
    { s with nIgnoreFastboot := true, next := s.start }
  else s

/-- A round of the loop; the branches for a NUL are not taken, since the loop ends
in front of it. -/
def InitState.step (s : InitState) (currChar : UInt8) : Option InitState :=
  if s.inParam = false then
    if isWhitespace currChar then some s
    else InitState.put currChar { s with
      start := s.next
      quote := if currChar = quoteChar then true else s.quote
      inParam := true }
  else if isWhitespace currChar then
    if s.quote then s.put currChar
    else if s.checkIgnored.nIgnoreFastboot then some { s.checkIgnored with inParam := false }
    else InitState.put space { s.checkIgnored with inParam := false }
  else if currChar = quoteChar then InitState.put currChar { s with quote := !s.quote }
  else s.put currChar

/-- An open quote is completed. -/
def InitState.closeQuote (s : InitState) : Option InitState :=
  if s.quote then s.put quoteChar else some s

/-- A blank is added, if there is none; `s_cmdline[next - 1]` is read for that. -/
def InitState.endBlank (s : InitState) : Option InitState :=
  if s.next = 0 then none else
  if s.sCmdline[s.next - 1]? = some space then some s else s.put space

/-- Behind the loop. -/
def InitState.finish (s : InitState) : Option InitState :=
  if s.next = 0 then some s else s.closeQuote.bind fun s => s.checkIgnored.endBlank

/-- `s_cmdline[next] = 0`, and `n_orig_cmdlen = next`. -/
def InitState.terminate (s : InitState) : Option Statics :=
  if h : s.next < commandLineSize then
    some {
      sCmdline := s.sCmdline.set s.next 0
      size := List.length_set.trans s.size
      nOrigCmdlen := s.next
      nOrigCmdlen_lt := h
      nIgnoreFastboot := s.nIgnoreFastboot }
  else none

def Statics.start (st : Statics) : InitState where
  sCmdline := st.sCmdline
  size := st.size
  next := 0
  start := 0
  inParam := false
  quote := false
  nIgnoreFastboot := st.nIgnoreFastboot

/-- For a `cmdline` that is not `NULL`; what is returned is `n_orig_cmdlen`. -/
def initCmdList (st : Statics) (cmdline : CString) : Option Statics :=
  ((cmdline.chars.take commandLineSize).foldlM InitState.step st.start).bind fun s =>
    s.finish.bind InitState.terminate

/-! ## `does_command_exist` -/

/-- The moods 0 to 4. -/
inductive Mood where
  | skip
  | matching
  | wait
  | quoted
  | opened
deriving DecidableEq

structure ExistState where
  mood : Mood
  quote : Bool
  /-- The rest of the name, from `p` on. -/
  p : List UInt8

/-- The quote logic of the moods that wait for the next parameter. -/
def ExistState.waiting (s : ExistState) (currChar : UInt8) : ExistState :=
  { s with mood := .wait, quote := if currChar = quoteChar then !s.quote else s.quote }

/-- A round of the loop; `none` is a match. -/
def existStep (command : List UInt8) (s : ExistState) (currChar : UInt8) : Option ExistState :=
  match s.mood with
  | .skip =>
      if currChar = quoteChar then some { s with mood := .opened, quote := true }
      else if s.p.head? = some currChar then some { s with mood := .matching, p := s.p.tail }
      else some { s with mood := .wait }
  | .matching =>
      if s.p.head? = some currChar then
        some { s with quote := if currChar = quoteChar then !s.quote else s.quote, p := s.p.tail }
      else if s.p ≠ [] then
        if currChar = space then
          if s.quote then some { s with mood := .wait }
          else some { s with mood := .skip, p := command }
        else some (s.waiting currChar)
      else if s.quote then
        if currChar = equals then none
        else if currChar = quoteChar then some { s with mood := .quoted, quote := false }
        else some { s with mood := .wait }
      else if currChar = space ∨ currChar = equals then none
      else some (s.waiting currChar)
  | .wait =>
      if currChar = quoteChar then some { s with quote := !s.quote }
      else if s.quote = false ∧ currChar = space then some { s with mood := .skip, p := command }
      else some s
  | .quoted =>
      if currChar = equals ∨ currChar = space then none else some { s with mood := .wait }
  | .opened =>
      if s.p.head? = some currChar then some { s with mood := .matching, p := s.p.tail }
      else some { s with mood := .wait }

/-- The loop over the first `n_orig_cmdlen` characters. -/
def existLoop (command : List UInt8) (s : ExistState) : List UInt8 → Bool
  | [] => false
  | c :: cs =>
      match existStep command s c with
      | none => true
      | some t => existLoop command t cs

def doesCommandExist (st : Statics) (command : List UInt8) : Bool :=
  if st.nIgnoreFastboot then true else
  if command = [] then false else
  existLoop command ⟨.skip, false, command⟩ (st.sCmdline.take st.nOrigCmdlen)

/-! ## `tegrabl_linuxboot_prepare_cmdline` -/

/-- A hook: what it writes to the beginning of a buffer of `len` bytes, and what it
returns. -/
structure Hook where
  writes : Nat → List UInt8
  returns : Nat → Int
  bounded : ∀ len, (writes len).length ≤ len
  /-- What is written ends in a terminator. -/
  terminated : ∀ len, writes len = [] ∨ ∃ text, writes len = text ++ [0]

/-- An entry of a table of parameters. -/
structure Param where
  str : List UInt8
  append : Option Hook

structure PrepState where
  st : Statics
  ptr : Nat
  remain : Nat

/-- The call of a hook. -/
def PrepState.call (h : Hook) (s : PrepState) : Option PrepState :=
  if hin : s.ptr + (h.writes s.remain).length ≤ s.st.sCmdline.length then
    some { s with st := { s.st with
      sCmdline := overwrite s.st.sCmdline s.ptr (h.writes s.remain)
      size := (length_overwrite hin).trans s.st.size } }
  else none

/-- Go on behind `idx` bytes, if that is what was written. -/
def PrepState.advance (idx : Int) (s : PrepState) : PrepState :=
  if 0 < idx ∧ idx ≤ s.remain then
    { s with remain := s.remain - idx.toNat, ptr := s.ptr + idx.toNat }
  else s

def addParam (s : PrepState) (param : Param) : Option PrepState :=
  if doesCommandExist s.st param.str then some s else
  match param.append with
  | none => some s
  | some h => (s.call h).map (·.advance (h.returns s.remain))

/-- Both tables, one after the other. -/
def addParams (s : PrepState) (params : List Param) : Option PrepState := params.foldlM addParam s

/-- The command line of the boot image; `true` leads to `done`. -/
def addBootimg (bootimg : Option Hook) (s : PrepState) : Option (Bool × PrepState) :=
  match bootimg with
  | none => some (false, s)
  | some h => (s.call h).map fun t =>
      if (s.remain : Int) < h.returns s.remain then (true, t) else (false, t.advance (h.returns s.remain))

/-- From the return of `init_cmd_list` on. -/
def appendAll (bootimg : Option Hook) (common extra : List Param) (s : PrepState) : Option Statics :=
  (addBootimg bootimg s).bind fun (done, s) =>
    if done then some s.st
    else (addParams s (common ++ extra)).map (·.st)

/-- `memset` -/
def Statics.cleared (st : Statics) : Statics :=
  { st with
    sCmdline := List.replicate commandLineSize 0
    size := List.length_replicate }

/-- What `init_cmd_list` returns and leaves; for `NULL` it leaves `n_orig_cmdlen`. -/
def initLine (st : Statics) : Option CString → Option (Nat × Statics)
  | none => some (0, { st with
      sCmdline := st.sCmdline.set 0 0
      size := List.length_set.trans st.size })
  | some cmdline => (initCmdList st cmdline).map fun st => (st.nOrigCmdlen, st)

/-- `bootimg` is what `tegrabl_linuxboot_add_string` makes of the command line of the
boot image, if there is one. -/
def prepareCmdline (st : Statics) (initcmdline : Option CString) (bootimg : Option Hook)
    (commonParams extraParams : List Param) : Option Statics :=
  (initLine st.cleared initcmdline).bind fun (i, st) =>
    appendAll bootimg commonParams extraParams { st := st, ptr := i, remain := commandLineSize - i }

end TX2SecureUart.Cmdline
