import Mathlib.Data.Bool.AllAny
import Xv6.GrepLines
import Xv6.UserPrint

/-!
# `sixfive`

`user/sixfive.c` prints the numbers of its files that 5 or 6 divides. A token is kept in 128
bytes and its value in an `int`, so a longer token is cut and a larger value wraps around.
-/
namespace Xv6.Sixfive

open Printf

abbrev TOKEN_SIZE : ℕ := 128

def isDigit (ch : UInt8) : Bool := '0'.toUInt8 ≤ ch && ch ≤ '9'.toUInt8

/-- The loop of `process_token`. -/
def valueLoop : List UInt8 → BitVec 32 → Option (BitVec 32)
  | [], value => some value
  | ch :: token, value =>
    if !isDigit ch then none
    else valueLoop token (value * 10 + BitVec.ofNat 32 ch.toNat - BitVec.ofNat 32 '0'.toNat)

/-- `process_token`; the bytes of `token` are the first `length` ones of the buffer. -/
def processToken (token : List UInt8) : Output :=
  if token.length = 0 then []
  else
    match valueLoop token 0 with
    | none => []
    | some value =>
      if value.srem 5 = 0 ∨ value.srem 6 = 0 then
        fprintf 1 ['%', 'd', '\n'] ⟨fun _ => [], fun _ => value.signExtend 64⟩
      else []

/-- `" -\r\t\n./,"` with its zero. -/
def separators : List UInt8 := [' ', '-', '\r', '\t', '\n', '.', '/', ','].map Char.toUInt8 ++ [0]

/-- A file that can be opened: the bytes that `read` returns, and whether it then returns 0
or −1. -/
structure File where
  bytes : List UInt8
  error : Bool

/-- The loop of `sixfive_file` with the `process_token` after it. -/
def readLoop : List UInt8 → List UInt8 → Output
  | [], token => processToken token
  | ch :: s, token =>
    if Grep.strchr separators ch ≠ none then processToken token ++ readLoop s []
    else if token.length < TOKEN_SIZE then readLoop s (token ++ [ch])
    else readLoop s token

def value (r : List UInt8) : ℕ := r.foldl (fun v ch => v * 10 + (ch.toNat - '0'.toNat)) 0

/-- A run that starts with 128 digits is no longer than that, and its value is an `int`. -/
def Fits (r : List UInt8) : Prop :=
  (r.take TOKEN_SIZE).all isDigit = true → r.length ≤ TOKEN_SIZE ∧ value r < 2 ^ 31

end Xv6.Sixfive
