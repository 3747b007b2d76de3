/-!
# Prefix codes

A prefix code assigns bit strings to numbers so that none is the beginning of another one: it is a
binary tree with the numbers at its leaves. A canonical code is determined by the lengths of its
bit strings alone. Read as a tree, it fills the places from left to right, the shorter strings first
and, among strings of one length, the smaller numbers first.
-/

namespace ContentMounts

/-- A prefix code as a tree: a bit string leads from the root to the number it stands for, or to a
place no string leads to. -/
inductive PrefixCode where
  | empty
  | leaf (symbol : Nat)
  | branch (zero one : PrefixCode)
deriving DecidableEq, Repr

namespace PrefixCode

/-- Whether every long enough bit string begins with a code word. -/
def isFull : PrefixCode → Bool
  | empty => false
  | leaf _ => true
  | branch zero one => zero.isFull && one.isFull

/-- Fills the place at a depth, and as many levels below it, with the first of the given symbols.
The symbols come with the lengths of their words in ascending order; those that found no place are
given back. -/
def fill (levels depth : Nat) (words : List (Nat × Nat)) :
    PrefixCode × List (Nat × Nat) :=
  match words, levels with
  | [], _ => (empty, [])
  | (length, symbol) :: rest, 0 =>
    if length ≤ depth then (leaf symbol, rest) else (empty, words)
  | (length, symbol) :: rest, levels + 1 =>
    if length ≤ depth then (leaf symbol, rest)
    else
      let (zero, behind) := fill levels (depth + 1) words
      let (one, behind) := fill levels (depth + 1) behind
      (branch zero one, behind)

/-- Longest code word. -/
def lengthLimit : Nat := 15

/-- The symbols that have a word, with the lengths of the words, in the order of the words. A
symbol's length stands at its place in the list, zero if it has no word. -/
def wordsOf (lengths : List Nat) : List (Nat × Nat) :=
  (List.range' 1 lengthLimit).flatMap fun n => lengths.zipIdx.filter (·.1 == n)

/-- Whether there are no words, or only one and this of a single bit. -/
def isLone : List (Nat × Nat) → Bool
  | [] => true
  | [(length, _)] => length == 1
  | _ => false

/-- The canonical code with the given lengths. The words must fill the tree; with `lone`, a code
without words or with one word of a single bit need not. -/
def ofLengths? (lone : Bool) (lengths : List Nat) : Option PrefixCode :=
  let words := wordsOf lengths
  let (code, left) := fill lengthLimit 0 words
  if left.isEmpty && (code.isFull || (lone && isLone words)) then
    some (if words.isEmpty then branch empty empty else code)
  else none

/-- The code with the words `0`, `10` and `11`. -/
example : ofLengths? false [2, 1, 2] = some (branch (leaf 1) (branch (leaf 0) (leaf 2))) := by
  decide

/-- Three words of one bit are too many. -/
example : ofLengths? false [1, 1, 1] = none := by decide

/-- A lone word may have a single bit. -/
example : ofLengths? true [0, 1] = some (branch (leaf 1) empty) := by decide

/-- A lone word of two bits leaves too much room. -/
example : ofLengths? true [0, 2] = none := by decide

end PrefixCode

end ContentMounts
