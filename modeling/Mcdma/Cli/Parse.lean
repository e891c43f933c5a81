import Mcdma.Lib.Text

/-!
# Hardware and link-local addresses

The helpers of `cli/lib/parse.js` that bring addresses to one spelling, and the
link-local address that an adapter takes from its hardware address.  Texts are
lists of characters; a character outside ASCII has no part in any address, so
lower case is that of ASCII.
-/

namespace Mcdma
namespace Cli

open Text

/-- White space and line ends, as `trim` removes them. -/
def isSpace (c : Char) : Bool :=
  [0x09, 0x0a, 0x0b, 0x0c, 0x0d, 0x20, 0xa0, 0x1680, 0x2000, 0x2001, 0x2002,
    0x2003, 0x2004, 0x2005, 0x2006, 0x2007, 0x2008, 0x2009, 0x200a, 0x2028,
    0x2029, 0x202f, 0x205f, 0x3000, 0xfeff].contains c.toNat

/-- `trim`. -/
def trim (text : List Char) : List Char :=
  ((text.dropWhile isSpace).reverse.dropWhile isSpace).reverse

/-- `trim().toLowerCase()`. -/
def lower (text : List Char) : List Char :=
  (trim text).map Char.toLower

/-- `padStart(2, '0')`. -/
def padStart2 (text : List Char) : List Char :=
  List.replicate (2 - text.length) '0' ++ text

/-- One or two hexadecimal digits. -/
def isByte (part : List Char) : Bool :=
  part.all isHex && (part.length == 1 || part.length == 2)

/-- `normMac`. -/
def normMac (s : List Char) : Option (List Char) :=
  if s = [] then none
  else
    let parts := (lower s).splitOn ':'
    if parts.length ≠ 6 ∨ parts.all isByte = false then none
    else some (join ':' (parts.map padStart2))

/-- `parseInt(x, 16)` where not a number counts as zero, as it does in bit
operations. -/
def parseInt (x : List Char) : Nat := (parseHex x).getD 0

/-- The words of `eui64`. -/
def euiWords (b : List Nat) : List Nat :=
  [((b.getD 0 0 ^^^ 2) <<< 8) ||| b.getD 1 0, (b.getD 2 0 <<< 8) ||| 0xff,
    0xfe00 ||| b.getD 3 0, (b.getD 4 0 <<< 8) ||| b.getD 5 0]

/-- `eui64`. -/
def eui64 (mac : List Char) : Option (List Char) :=
  match normMac mac with
  | none => none
  | some m =>
      let b := (m.splitOn ':').map parseInt
      some ("fe80::".toList ++ join ':' ((euiWords b).map hex))

/-- A line end, which the dot of a pattern does not match. -/
def isLineEnd (c : Char) : Bool :=
  [0x0a, 0x0d, 0x2028, 0x2029].contains c.toNat

/-- `replace(/%.*$/, '')`. -/
def stripZone : List Char → List Char
  | [] => []
  | c :: rest =>
      if c = '%' ∧ rest.any isLineEnd = false then [] else c :: stripZone rest

/-- `replace(/^\[|\]$/g, '')`. -/
def stripBrackets (text : List Char) : List Char :=
  let rest := if text.head? = some '[' then text.tail else text
  if rest.getLast? = some ']' then rest.dropLast else rest

/-- The words of one half. -/
def halfWords (half : List Char) : List (List Char) :=
  if half = [] then [] else half.splitOn ':'

/-- The eight words of an address, from its halves. -/
def parseWords (halves : List (List Char)) : Option (List Nat) :=
  if 2 < halves.length then none
  else
    let head := halfWords (halves.getD 0 [])
    let tail := if halves.length = 2 then halfWords (halves.getD 1 []) else []
    let fill : Int :=
      if halves.length = 2 then 8 - head.length - tail.length else 0
    if fill < 0 ∨ (halves.length = 1 ∧ head.length ≠ 8) then none
    else
      let words := (head ++ List.replicate fill.toNat ['0'] ++ tail).map
        fun w => parseHex (if w = [] then ['0'] else w)
      if words.all (fun w => w.any fun w => decide (w ≤ 0xffff)) = false then
        none
      else some (words.map fun w => w.getD 0)

/-- The zeros from a word on. -/
def zeroRun (words : List Nat) (i : Nat) : Nat :=
  ((words.drop i).takeWhile fun w => w = 0).length

/-- The loop that finds the longest run of zeros: where it starts, if there is
one, and its length. -/
def longestRun (words : List Nat) :
    Nat → Nat → Option Nat × Nat → Option Nat × Nat
  | 0, _, best => best
  | fuel + 1, i, best =>
      if 8 ≤ i then best
      else if words.getD i 0 ≠ 0 then longestRun words fuel (i + 1) best
      else
        let run := zeroRun words i
        if best.2 < run ∧ 2 ≤ run then
          longestRun words fuel (i + run) (some i, run)
        else longestRun words fuel (i + run) best

/-- The text with the longest run of zeros left out. -/
def render (words : List Nat) : List Char :=
  match longestRun words 8 0 (none, 0) with
  | (none, _) => join ':' (words.map hex)
  | (some best, length) =>
      join ':' ((words.map hex).take best) ++ ':' :: ':' ::
        join ':' ((words.map hex).drop (best + length))

/-- `normIp6`. -/
def normIp6 (s : List Char) : Option (List Char) :=
  if s = [] then none
  else
    let a := stripBrackets (stripZone (lower s))
    if a = [] ∨ a.all (fun c => isHex c || c == ':' || c == '.') = false then
      none
    else
      match parseWords (splitDouble ':' a) with
      | none => none
      | some words => some (render words)

/-- The bytes that the words of an address came from, if they did. -/
def macBytes (w : List Nat) : Option (List Nat) :=
  if w.getD 1 0 &&& 0xff ≠ 0xff ∨ w.getD 2 0 >>> 8 ≠ 0xfe then none
  else
    some [(w.getD 0 0 >>> 8) ^^^ 2, w.getD 0 0 &&& 0xff, w.getD 1 0 >>> 8,
      w.getD 2 0 &&& 0xff, w.getD 3 0 >>> 8, w.getD 3 0 &&& 0xff]

/-- `macFromEui64`. -/
def macFromEui64 (ip : List Char) : Option (List Char) :=
  match normIp6 ip with
  | none => none
  | some full =>
      if full.take 6 ≠ "fe80::".toList then none
      else
        let words := (full.drop 6).splitOn ':'
        if words.length ≠ 4 then none
        else
          match macBytes (words.map parseInt) with
          | none => none
          | some b => some (join ':' (b.map fun x => padStart2 (hex x)))

end Cli
end Mcdma
