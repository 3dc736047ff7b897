import Xv6.UserString
import Xv6.UserPrint

/-!
# `find`

`user/find.c`. The memory is one block of bytes for each path that a call is given: block 0 is
the argument of the program, and block `d + 1` is the buffer of the call at the depth `d`. A
call hands its buffer to the calls below it. The file system gives, for the path that is
opened, what `fstat` and the reads of its entries show.
-/
namespace Xv6.Find

open Function UserString Printf

abbrev DIRSIZ : ℕ := 14
abbrev PATH_SIZE : ℕ := 512
abbrev MAXARG : ℕ := 32

abbrev slash : UInt8 := 47
abbrev dot : UInt8 := 46

structure Dirent where
  inum : ℕ
  name : Fin DIRSIZ → UInt8

/-- What an open descriptor shows. -/
inductive File
  | file
  | device
  | dir (entries : List Dirent)

/-- `opens d path` is the file that `open` finds while `d` directories are open. -/
structure Env where
  opens : ℕ → Text → Option File
  fstat : ℕ → Text → Bool
  /-- Whether `fork` succeeds, after so many events. -/
  fork : ℕ → Bool

inductive Event
  | write (output : Output)
  | exec (argv : List Text)
  deriving DecidableEq

structure State where
  mem : ℕ → ℕ → UInt8
  events : List Event

def State.emit (s : State) (e : Event) : State := { s with events := s.events ++ [e] }

/-- `fprintf(2, fmt, text)`. -/
def State.complain (s : State) (fmt : String) (t : Text) : State :=
  s.emit (.write (fprintf 2 fmt.toList ⟨fun _ => t, fun _ => 1⟩))

/-- `base_name`: the offset of the last component of the first `p` bytes. -/
def baseName (path : ℕ → UInt8) : ℕ → ℕ
  | 0 => 0
  | p + 1 => if path p ≠ slash then baseName path p else p + 1

/-- The name as a C string, in an array that is one byte longer. -/
def Dirent.chars (de : Dirent) (i : ℕ) : UInt8 := if h : i < DIRSIZ then de.name ⟨i, h⟩ else 0

def dirNameEqual (de : Dirent) (target : Text) : Bool :=
  strcmp de.chars (chars target) (DIRSIZ + 1) 0 0 = some true

def isDotDirectory (de : Dirent) : Bool := dirNameEqual de [dot] || dirNameEqual de [dot, dot]

/-- The loop of `execute_command`; `none` if there are too many words. -/
def copyArgs : ℕ → List Text → Option (List Text)
  | _, [] => some []
  | i, w :: ws => if i ≥ MAXARG - 2 then none else (copyArgs (i + 1) ws).map (w :: ·)

def executeCommand (env : Env) (path : Text) (words : List Text) (s : State) : State :=
  match copyArgs 0 words with
  | none => s.complain "find: too many exec arguments\n" []
  | some argv =>
    if env.fork s.events.length then s.emit (.exec (argv ++ [path]))
    else s.complain "find: fork failed\n" []

/-- `handle_match`; there are words if the mode is `-exec`. -/
def handleMatch (env : Env) (path : Text) (words : Option (List Text)) (s : State) : State :=
  match words with
  | some words => executeCommand env path words s
  | none => s.emit (.write (fprintf 1 ['%', 's', '\n'] ⟨fun _ => path, fun _ => 1⟩))

/-- The loop over the entries, with the buffer at `b` and the place `p` for the names in it. -/
def scan (below : State → Option State) (b p : ℕ) : List Dirent → State → Option State
  | [], s => some s
  | de :: es, s =>
    if de.inum = 0 then scan below b p es s
    else if isDotDirectory de then scan below b p es s
    else
      let buffer := update (memmove (s.mem b) p de.chars DIRSIZ) (p + DIRSIZ) 0
      (below { s with mem := update s.mem b buffer }).bind (scan below b p es)

/-- `find` of the path in block `d`. -/
def find (env : Env) (target : ℕ → UInt8) (words : Option (List Text)) :
    ℕ → ℕ → State → Option State
  | 0, _, _ => none
  | fuel + 1, d, s =>
    let path := s.mem d
    (strlen path fuel 0).bind fun len =>
      let name := text path 0 len
      match env.opens d name with
      | none => some (s.complain "find: cannot open %s\n" name)
      | some shown =>
        if env.fstat d name = false then some (s.complain "find: cannot stat %s\n" name)
        else match shown with
          | .dir entries =>
            if len + 1 + DIRSIZ + 1 > PATH_SIZE then some (s.complain "find: path too long\n" [])
            else
              (strcpy path fuel 0 (s.mem (d + 1))).bind fun buffer =>
                (strlen buffer fuel 0).bind fun p =>
                  if p > 0 ∧ buffer (p - 1) ≠ slash then
                    scan (find env target words fuel (d + 1)) (d + 1) (p + 1) entries
                      { s with mem := update s.mem (d + 1) (update buffer p slash) }
                  else
                    scan (find env target words fuel (d + 1)) (d + 1) p entries
                      { s with mem := update s.mem (d + 1) buffer }
          | _ =>
            (strcmp path target fuel (baseName path len) 0).map fun eq =>
              if eq then handleMatch env name words s else s

end Xv6.Find
