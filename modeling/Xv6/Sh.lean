import Xv6.Prog
import Mathlib.Tactic

/-!
# The parser of the shell

The parser of `user/sh.c` on a string without zeros. A pointer into the string is a position;
`*ps` is the state of a parsing function, and `es` is the end of the string. A command is a
tree, whose words are pairs of pointers to the beginning and to the end of a token. The
functions that call themselves carry a bound on how often they do.
-/
namespace Xv6.Sh

abbrev MAXARGS : ℕ := 10

abbrev O_RDONLY : ℕ := 0x000
abbrev O_WRONLY : ℕ := 0x001
abbrev O_CREATE : ℕ := 0x200
abbrev O_TRUNC : ℕ := 0x400

/-- `struct cmd`, with the words of type `W`. -/
inductive Cmd (W : Type) where
  | exec (argv : List W)
  | redir (cmd : Cmd W) (file : W) (mode fd : ℕ)
  | pipe (left right : Cmd W)
  | list (left right : Cmd W)
  | back (cmd : Cmd W)
  deriving DecidableEq

/-- Where a token begins and ends. -/
abbrev Span := ℕ × ℕ

inductive Err where
  | leftovers
  | missingFile
  | parseblock
  | missingParen
  | syntaxError
  | tooManyArgs
  /-- No error of the source: the bound on the calls is too small. -/
  | fuel
  deriving DecidableEq

/-- A parsing function, with `*ps` as its state. -/
abbrev ShM := Prog.M ℕ Err

/-- Blank, tab, carriage return, newline and vertical tab. -/
def whitespace : List UInt8 := [32, 9, 13, 10, 11]

def symbols : List UInt8 := ['<', '|', '>', '&', ';', '(', ')'].map Char.toUInt8

variable (buf : List UInt8)

/-- `*s`; the string ends with a zero. -/
def charAt (s : ℕ) : UInt8 := buf.getD s 0

/-- `while(s < es && strchr(whitespace, *s)) s++`, with the number of characters left. -/
def skipWhitespace : ℕ → ℕ → ℕ
  | 0, s => s
  | k + 1, s => if charAt buf s ∈ whitespace then skipWhitespace k (s + 1) else s

def skipWord : ℕ → ℕ → ℕ
  | 0, s => s
  | k + 1, s =>
    if charAt buf s ∉ whitespace ∧ charAt buf s ∉ symbols then skipWord k (s + 1) else s

/-- What `gettoken` returns, with `*q` and `*eq`. -/
structure Tok where
  ret : UInt8
  q : ℕ
  eq : ℕ

/-- The `switch` of `gettoken`: what it returns for the token at `s`, and where that ends. -/
def scanToken (s : ℕ) : UInt8 × ℕ :=
  let c := charAt buf s
  if c = 0 then
    (c, s)
  else if c ∈ ['|', '(', ')', ';', '&', '<'].map Char.toUInt8 then
    (c, s + 1)
  else if c = '>'.toUInt8 then
    if charAt buf (s + 1) = '>'.toUInt8 then ('+'.toUInt8, s + 2) else (c, s + 1)
  else
    ('a'.toUInt8, skipWord buf (buf.length - s) s)

def gettoken : ShM Tok := do
  let s ← get
  let q := skipWhitespace buf (buf.length - s) s
  let r := scanToken buf q
  set (skipWhitespace buf (buf.length - r.2) r.2)
  return { ret := r.1, q := q, eq := r.2 }

def peek (toks : List Char) : ShM Bool := do
  let s ← get
  let s := skipWhitespace buf (buf.length - s) s
  set s
  return charAt buf s ≠ 0 ∧ charAt buf s ∈ toks.map Char.toUInt8

/-- A redirection that is to be wrapped around a command. -/
structure Redir (W : Type) where
  file : W
  mode : ℕ
  fd : ℕ

variable {W : Type} in
def redircmd (cmd : Cmd W) (r : Redir W) : Cmd W := .redir cmd r.file r.mode r.fd

/-- The `switch` of `parseredirs`. -/
def redirOf (tok : UInt8) (file : Span) : Redir Span :=
  if tok = '<'.toUInt8 then { file := file, mode := O_RDONLY, fd := 0 }
  else if tok = '>'.toUInt8 then { file := file, mode := O_WRONLY ||| O_CREATE ||| O_TRUNC, fd := 1 }
  else { file := file, mode := O_WRONLY ||| O_CREATE, fd := 1 }

/-- The redirections that `parseredirs` wraps around its command, the innermost first. -/
def parseredirs : ℕ → ShM (List (Redir Span))
  | 0 => throw .fuel
  | k + 1 => do
    if ← peek buf ['<', '>'] then
      let tok ← gettoken buf
      let t ← gettoken buf
      if t.ret ≠ 'a'.toUInt8 then
        throw .missingFile
      let rest ← parseredirs k
      return redirOf tok.ret (t.q, t.eq) :: rest
    else
      return []

/-- The loop of `parseexec`. The command that `parseredirs` wraps is filled while the loop
goes on, so it is put together at the end. -/
def argLoop : ℕ → List Span → List (Redir Span) → ShM (Cmd Span)
  | 0, _, _ => throw .fuel
  | k + 1, argv, redirs => do
    if ← peek buf ['|', ')', '&', ';'] then
      return redirs.foldl redircmd (.exec argv)
    else
      let t ← gettoken buf
      if t.ret = 0 then
        return redirs.foldl redircmd (.exec argv)
      else
        if t.ret ≠ 'a'.toUInt8 then
          throw .syntaxError
        if MAXARGS ≤ argv.length + 1 then
          throw .tooManyArgs
        let more ← parseredirs buf (buf.length + 1)
        argLoop k (argv ++ [(t.q, t.eq)]) (redirs ++ more)

/-- `line` is `parseline`. -/
def parseblock (line : ShM (Cmd Span)) : ShM (Cmd Span) := do
  if ¬ (← peek buf ['(']) then
    throw .parseblock
  let _ ← gettoken buf
  let cmd ← line
  if ¬ (← peek buf [')']) then
    throw .missingParen
  let _ ← gettoken buf
  let redirs ← parseredirs buf (buf.length + 1)
  return redirs.foldl redircmd cmd

def parseexec (line : ShM (Cmd Span)) : ShM (Cmd Span) := do
  if ← peek buf ['('] then
    parseblock buf line
  else
    let redirs ← parseredirs buf (buf.length + 1)
    argLoop buf (buf.length + 1) [] redirs

def parsepipe (line : ShM (Cmd Span)) : ℕ → ShM (Cmd Span)
  | 0 => throw .fuel
  | k + 1 => do
    let cmd ← parseexec buf line
    if ← peek buf ['|'] then
      let _ ← gettoken buf
      let right ← parsepipe line k
      return .pipe cmd right
    else
      return cmd

/-- The loop of `parseline`. -/
def backLoop : ℕ → Cmd Span → ShM (Cmd Span)
  | 0, _ => throw .fuel
  | k + 1, cmd => do
    if ← peek buf ['&'] then
      let _ ← gettoken buf
      backLoop k (.back cmd)
    else
      return cmd

def parseline : ℕ → ShM (Cmd Span)
  | 0 => throw .fuel
  | k + 1 => do
    let cmd ← parsepipe buf (parseline k) (k + 1)
    let cmd ← backLoop buf (k + 1) cmd
    if ← peek buf [';'] then
      let _ ← gettoken buf
      let right ← parseline k
      return .list cmd right
    else
      return cmd

/-- The memory that holds the string. -/
abbrev Mem := ℕ → UInt8

/-- `*p = 0`. -/
def Mem.zero (mem : Mem) (p : ℕ) : Mem := fun i => if i = p then 0 else mem i

def nulterminate : Cmd Span → Mem → Mem
  | .exec argv, mem => argv.foldl (fun mem arg => mem.zero arg.2) mem
  | .redir cmd file _ _, mem => (nulterminate cmd mem).zero file.2
  | .pipe left right, mem => nulterminate right (nulterminate left mem)
  | .list left right, mem => nulterminate right (nulterminate left mem)
  | .back cmd, mem => nulterminate cmd mem

/-- The command, and the string with the zeros that were written to it. -/
def parsecmd : ShM (Cmd Span × Mem) := do
  let cmd ← parseline buf (buf.length + 1)
  let _ ← peek buf []
  let s ← get
  if s ≠ buf.length then
    throw .leftovers
  return (cmd, nulterminate cmd (charAt buf))

end Xv6.Sh
