import Mathlib.Data.List.Sort
import Mathlib.Data.String.Basic
import Mathlib.Data.Rat.Defs

/-! Decoded JSON values with the meaning a Python program gives them: insertion
ordered objects, truth values, `str` and `repr`, and equality of dictionaries. -/
namespace Yeoman.Library

def isNumberChar (c : Char) : Bool :=
  c.isDigit || c == '-' || c == '+' || c == '.' || c == 'e' || c == 'E'

def isWholeText : List Char → Bool
  | [] => false
  | ['0'] => true
  | c :: cs => c != '0' && c.isDigit && cs.all Char.isDigit

def isExponentText : List Char → Bool
  | '+' :: c :: cs => (c :: cs).all Char.isDigit
  | '-' :: c :: cs => (c :: cs).all Char.isDigit
  | c :: cs => (c :: cs).all Char.isDigit
  | [] => false

def isFloatText (cs : List Char) : Bool :=
  let body := if cs.head? = some '-' then cs.tail else cs
  let mantissa := body.takeWhile (fun c => c != 'e' && c != 'E')
  let exponent := body.dropWhile (fun c => c != 'e' && c != 'E')
  let whole := mantissa.takeWhile (· != '.')
  let fraction := mantissa.dropWhile (· != '.')
  cs.all isNumberChar && isWholeText whole &&
    (fraction.isEmpty || (2 ≤ fraction.length && fraction.tail.all Char.isDigit)) &&
    (exponent.isEmpty || isExponentText exponent.tail) &&
    !(fraction.isEmpty && exponent.isEmpty)

/-- A finite float. It is identified by the token that prints it: printing is
the inverse of reading for the tokens that `repr` produces. -/
structure FloatLit where
  text : List Char
  shape : isFloatText text = true

/-- The decimal number a float token denotes. -/
def FloatLit.value (f : FloatLit) : ℚ :=
  let negative := f.text.head? = some '-'
  let body := if negative then f.text.tail else f.text
  let mantissa := body.takeWhile (fun c => c != 'e' && c != 'E')
  let exponent := (body.dropWhile (fun c => c != 'e' && c != 'E')).tail
  let fraction := (mantissa.dropWhile (· != '.')).tail
  let digits := Nat.ofDigitChars 10 (mantissa.filter Char.isDigit) 0
  let magnitude := Nat.ofDigitChars 10 (exponent.filter Char.isDigit) 0
  let scale : Int := (if exponent.head? = some '-' then -(magnitude : Int) else magnitude) - fraction.length
  let q : ℚ := if 0 ≤ scale then digits * 10 ^ scale.toNat else mkRat digits (10 ^ (-scale).toNat)
  if negative then -q else q

inductive Json where
  | null
  | bool (b : Bool)
  | int (i : Int)
  | float (f : FloatLit)
  | str (s : String)
  | arr (xs : List Json)
  | obj (kvs : List (String × Json))

namespace Json

abbrev Members := List (String × Json)

def get (key : String) (kvs : Members) : Json := (kvs.lookup key).getD .null

def has (key : String) (kvs : Members) : Bool := (kvs.lookup key).isSome

def set (key : String) (value : Json) : Members → Members
  | [] => [(key, value)]
  | (k, v) :: kvs => if k = key then (k, value) :: kvs else (k, v) :: set key value kvs

def ofPairs (pairs : Members) : Members := pairs.foldl (fun kvs kv => set kv.1 kv.2 kvs) []

def truthy : Json → Bool
  | .null => false
  | .bool b => b
  | .int i => i != 0
  | .float f => f.value != 0
  | .str s => s != ""
  | .arr xs => !xs.isEmpty
  | .obj kvs => !kvs.isEmpty

def orElse (a b : Json) : Json := if a.truthy then a else b

private def hexDigit (n : Nat) : Char := Nat.digitChar (n % 16)

/-- One character of `repr(str)`. Exact on Latin-1; characters beyond it are
printed as they stand. -/
def reprChar (quote c : Char) : List Char :=
  if c = quote || c = '\\' then ['\\', c]
  else if c = '\n' then ['\\', 'n']
  else if c = '\r' then ['\\', 'r']
  else if c = '\t' then ['\\', 't']
  else if c.toNat < 0x20 || (0x7f ≤ c.toNat && c.toNat ≤ 0xa0) || c.toNat = 0xad then
    ['\\', 'x', hexDigit (c.toNat / 16), hexDigit c.toNat]
  else [c]

def reprString (s : String) : String :=
  let cs := s.toList
  let quote := if cs.contains '\x27' && !cs.contains '"' then '"' else '\x27'
  String.ofList ([quote] ++ cs.flatMap (reprChar quote) ++ [quote])

mutual

def repr : Json → String
  | .null => "None"
  | .bool true => "True"
  | .bool false => "False"
  | .int i => toString i
  | .float f => String.ofList f.text
  | .str s => reprString s
  | .arr xs => "[" ++ ", ".intercalate (reprItems xs) ++ "]"
  | .obj kvs => "\x7b" ++ ", ".intercalate (reprMembers kvs) ++ "\x7d"

def reprItems : List Json → List String
  | [] => []
  | x :: xs => repr x :: reprItems xs

def reprMembers : List (String × Json) → List String
  | [] => []
  | (k, v) :: kvs => (reprString k ++ ": " ++ repr v) :: reprMembers kvs

end

def toStr : Json → String
  | .str s => s
  | v => repr v

/-- `str(value) or None`, with `None` kept. -/
def optStr : Json → Option String
  | .null => none
  | v => if v.toStr = "" then none else some v.toStr

/-- White space of both languages: blanks and line ends of ASCII, and the separators of Unicode. -/
def isBlank (c : Char) : Bool :=
  (9 ≤ c.toNat && c.toNat ≤ 13) || (0x2000 ≤ c.toNat && c.toNat ≤ 0x200a) ||
    [0x20, 0xa0, 0x1680, 0x2028, 0x2029, 0x202f, 0x205f, 0x3000].contains c.toNat

/-- `str.isspace()` of one character. -/
def isSpace (c : Char) : Bool := isBlank c || (0x1c ≤ c.toNat && c.toNat ≤ 0x1f) || c.toNat == 0x85

def stripBy (space : Char → Bool) (cs : List Char) : List Char :=
  ((cs.dropWhile space).reverse.dropWhile space).reverse

/-- `str.strip()`. -/
def strip (cs : List Char) : List Char := stripBy isSpace cs

/-- `String.prototype.trim`. -/
def trim (s : String) : String := String.ofList (stripBy (fun c => isBlank c || c.toNat == 0xfeff) s.toList)

private def digitGroups : Bool → List Char → Bool
  | prior, [] => prior
  | prior, '_' :: cs => prior && digitGroups false cs
  | _, c :: cs => c.isDigit && digitGroups true cs

def parseInt (s : String) : Option Int :=
  let cs := strip s.toList
  let negative := cs.head? = some '-'
  let body := if negative || cs.head? = some '+' then cs.tail else cs
  if digitGroups false body then
    let n : Int := Nat.ofDigitChars 10 (body.filter Char.isDigit) 0
    some (if negative then -n else n)
  else none

def optInt : Json → Option Int
  | .bool b => some b.toInt
  | .int i => some i
  | .float f => some (if 0 ≤ f.value then f.value.floor else f.value.ceil)
  | .str s => parseInt s
  | _ => none

def number? : Json → Option ℚ
  | .bool b => some b.toInt
  | .int i => some i
  | .float f => some f.value
  | _ => none

mutual

def eq : Json → Json → Bool
  | .null, .null => true
  | .str s, .str t => s == t
  | .arr xs, .arr ys => eqItems xs ys
  | .obj kvs, .obj lvs => kvs.length == lvs.length && eqMembers kvs lvs
  | .bool a, b => (some (a.toInt : ℚ) == number? b)
  | .int a, b => (some (a : ℚ) == number? b)
  | .float a, b => (some a.value == number? b)
  | _, _ => false

def eqItems : List Json → List Json → Bool
  | [], [] => true
  | x :: xs, y :: ys => eq x y && eqItems xs ys
  | _, _ => false

def eqMembers : List (String × Json) → List (String × Json) → Bool
  | [], _ => true
  | (k, v) :: kvs, lvs =>
    (match lvs.lookup k with
      | some w => eq v w
      | none => false) && eqMembers kvs lvs

end

mutual

def WellFormed : Json → Prop
  | .arr xs => WellFormedItems xs
  | .obj kvs => (kvs.map Prod.fst).Nodup ∧ WellFormedMembers kvs
  | _ => True

def WellFormedItems : List Json → Prop
  | [] => True
  | x :: xs => WellFormed x ∧ WellFormedItems xs

def WellFormedMembers : List (String × Json) → Prop
  | [] => True
  | (_, v) :: kvs => WellFormed v ∧ WellFormedMembers kvs

end

end Json

@[ext] structure Dict where
  members : Json.Members
  wellFormed : (Json.obj members).WellFormed

end Yeoman.Library
