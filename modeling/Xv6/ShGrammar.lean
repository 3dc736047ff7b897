import Xv6.Sh

/-!
# The grammar of the shell

The tokens of a string and the commands that derive from them:

    line  ::= pipe '&'* [';' line]
    pipe  ::= exec ['|' pipe]
    exec  ::= '(' line ')' redir* | redir* (word redir*)*     with fewer than MAXARGS words
    redir ::= ('<' | '>' | '>>') word
-/
namespace Xv6.Sh

inductive Op where
  | input
  | output
  | append
  deriving DecidableEq

inductive Token where
  | word (text : List UInt8)
  | pipe
  | lparen
  | rparen
  | semi
  | amp
  | op (o : Op)
  deriving DecidableEq

def WordChar (c : UInt8) : Prop := c ∉ whitespace ∧ c ∉ symbols

instance decidableWordChar (c : UInt8) : Decidable (WordChar c) := by
  unfold WordChar
  infer_instance

/-- The token that a single symbol is. -/
def symbol (c : UInt8) : Token :=
  if c = '|'.toUInt8 then .pipe
  else if c = '('.toUInt8 then .lparen
  else if c = ')'.toUInt8 then .rparen
  else if c = ';'.toUInt8 then .semi
  else if c = '&'.toUInt8 then .amp
  else if c = '<'.toUInt8 then .op .input
  else .op .output

/-- A character of a word before the tokens of the rest, which begins with `next`: it joins a
word that begins there. -/
def joinWord (c next : UInt8) (rest : List Token) : List Token :=
  match rest with
  | .word w :: ts => if WordChar next then .word (c :: w) :: ts else .word [c] :: rest
  | _ => .word [c] :: rest

/-- The tokens of a string: blanks are skipped, `>>` is one token, and words are as long as
they can be. -/
def tokens : List UInt8 → List Token
  | [] => []
  | [c] => if c ∈ whitespace then [] else if c ∈ symbols then [symbol c] else [.word [c]]
  | c :: d :: l =>
    if c ∈ whitespace then tokens (d :: l)
    else if c = '>'.toUInt8 ∧ d = '>'.toUInt8 then .op .append :: tokens l
    else if c ∈ symbols then symbol c :: tokens (d :: l)
    else joinWord c d (tokens (d :: l))

/-- The mode and the descriptor of a redirection. -/
def redirection (o : Op) (file : List UInt8) : Redir (List UInt8) :=
  match o with
  | .input => { file := file, mode := O_RDONLY, fd := 0 }
  | .output => { file := file, mode := O_WRONLY ||| O_CREATE ||| O_TRUNC, fd := 1 }
  | .append => { file := file, mode := O_WRONLY ||| O_CREATE, fd := 1 }

/-- `redir*`. -/
inductive Redirs : List Token → List (Redir (List UInt8)) → Prop where
  | nil : Redirs [] []
  | cons (o : Op) (w : List UInt8) {ts : List Token} {rs : List (Redir (List UInt8))}
      (h : Redirs ts rs) : Redirs (.op o :: .word w :: ts) (redirection o w :: rs)

/-- `(word redir*)*`, with the words and the redirections. -/
inductive Args : List Token → List (List UInt8) → List (Redir (List UInt8)) → Prop where
  | nil : Args [] [] []
  | cons (w : List UInt8) {ts us : List Token} {ws : List (List UInt8)}
      {rs rs' : List (Redir (List UInt8))} (hr : Redirs ts rs) (h : Args us ws rs') :
      Args (.word w :: (ts ++ us)) (w :: ws) (rs ++ rs')

/-- `'&'*` after a command. -/
def backs (n : ℕ) (cmd : Cmd (List UInt8)) : Cmd (List UInt8) := (Cmd.back)^[n] cmd

mutual

inductive Line : List Token → Cmd (List UInt8) → Prop where
  | last {ts : List Token} {cmd : Cmd (List UInt8)} (h : Pipe ts cmd) (n : ℕ) :
      Line (ts ++ List.replicate n .amp) (backs n cmd)
  | list {ts us : List Token} {cmd right : Cmd (List UInt8)} (h : Pipe ts cmd) (n : ℕ)
      (hr : Line us right) :
      Line (ts ++ List.replicate n .amp ++ .semi :: us) (.list (backs n cmd) right)

inductive Pipe : List Token → Cmd (List UInt8) → Prop where
  | last {ts : List Token} {cmd : Cmd (List UInt8)} (h : Exec ts cmd) : Pipe ts cmd
  | pipe {ts us : List Token} {cmd right : Cmd (List UInt8)} (h : Exec ts cmd)
      (hr : Pipe us right) : Pipe (ts ++ .pipe :: us) (.pipe cmd right)

inductive Exec : List Token → Cmd (List UInt8) → Prop where
  | block {ts us : List Token} {cmd : Cmd (List UInt8)} {rs : List (Redir (List UInt8))}
      (h : Line ts cmd) (hr : Redirs us rs) :
      Exec (.lparen :: (ts ++ .rparen :: us)) (rs.foldl redircmd cmd)
  | words {ts us : List Token} {ws : List (List UInt8)} {rs rs' : List (Redir (List UInt8))}
      (hr : Redirs ts rs) (h : Args us ws rs') (hmax : ws.length < MAXARGS) :
      Exec (ts ++ us) ((rs ++ rs').foldl redircmd (.exec ws))

end

end Xv6.Sh
