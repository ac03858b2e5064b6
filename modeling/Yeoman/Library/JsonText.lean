import Yeoman.Library.JsonValue

/-! Compact JSON text: `json.dumps(value, sort_keys=True, separators=(",", ":"),
ensure_ascii=False)` and `json.loads`, character by character. -/
namespace Yeoman.Library.Json

def keyLe (a b : String × Json) : Prop := a.1 ≤ b.1
deriving Decidable

mutual

def sortKeys : Json → Json
  | .arr xs => .arr (sortItems xs)
  | .obj kvs => .obj ((sortMembers kvs).insertionSort keyLe)
  | v => v

def sortItems : List Json → List Json
  | [] => []
  | x :: xs => sortKeys x :: sortItems xs

def sortMembers : List (String × Json) → List (String × Json)
  | [] => []
  | (k, v) :: kvs => (k, sortKeys v) :: sortMembers kvs

end

def hexChar (n : Nat) : Char := Nat.digitChar n

def hexValue (c : Char) : Option Nat :=
  if c.isDigit then some (c.toNat - 48)
  else if 'a' ≤ c ∧ c ≤ 'f' then some (c.toNat - 87)
  else if 'A' ≤ c ∧ c ≤ 'F' then some (c.toNat - 55)
  else none

def escapeLetter (c : Char) : Option Char :=
  if c = '"' then some '"'
  else if c = '\\' then some '\\'
  else if c = '\n' then some 'n'
  else if c = '\r' then some 'r'
  else if c = '\t' then some 't'
  else if c = '\x08' then some 'b'
  else if c = '\x0c' then some 'f'
  else none

def escapeChar (c : Char) : List Char :=
  match escapeLetter c with
  | some e => ['\\', e]
  | none =>
    if c.toNat < 0x20 then ['\\', 'u', '0', '0', hexChar (c.toNat / 16), hexChar (c.toNat % 16)]
    else [c]

def renderString (s : String) : List Char := '"' :: (s.toList.flatMap escapeChar ++ ['"'])

def renderInt (i : Int) : List Char :=
  if i < 0 then '-' :: Nat.toDigits 10 i.natAbs else Nat.toDigits 10 i.natAbs

mutual

def render : Json → List Char
  | .null => ['n', 'u', 'l', 'l']
  | .bool true => ['t', 'r', 'u', 'e']
  | .bool false => ['f', 'a', 'l', 's', 'e']
  | .int i => renderInt i
  | .float f => f.text
  | .str s => renderString s
  | .arr xs => '[' :: (renderItems xs ++ [']'])
  | .obj kvs => '\x7b' :: (renderMembers kvs ++ ['\x7d'])

def renderItems : List Json → List Char
  | [] => []
  | [x] => render x
  | x :: y :: xs => render x ++ ',' :: renderItems (y :: xs)

def renderMembers : List (String × Json) → List Char
  | [] => []
  | [(k, v)] => renderString k ++ ':' :: render v
  | (k, v) :: kv :: kvs => renderString k ++ ':' :: (render v ++ ',' :: renderMembers (kv :: kvs))

end

def dumps (v : Json) : String := String.ofList (render (sortKeys v))

def skipSpace (cs : List Char) : List Char :=
  cs.dropWhile (fun c => c == ' ' || c == '\t' || c == '\n' || c == '\r')

def hex4 (a b c d : Char) : Option Nat := do
  let a ← hexValue a
  let b ← hexValue b
  let c ← hexValue c
  let d ← hexValue d
  pure (((a * 16 + b) * 16 + c) * 16 + d)

def unescape (e : Char) : Option Char :=
  if e = '"' || e = '\\' || e = '/' then some e
  else if e = 'n' then some '\n'
  else if e = 'r' then some '\r'
  else if e = 't' then some '\t'
  else if e = 'b' then some '\x08'
  else if e = 'f' then some '\x0c'
  else none

def push (c : Char) (r : Option (List Char × List Char)) : Option (List Char × List Char) :=
  r.map fun p => (c :: p.1, p.2)

/-- The rest of a string literal after its opening quote. Control characters are
refused; an escaped surrogate is accepted only as half of a pair, since a lone
one is no character. -/
def scanString : List Char → Option (List Char × List Char)
  | [] => none
  | c :: r =>
    if c = '"' then some ([], r)
    else if c ≠ '\\' then
      if c.toNat < 0x20 then none else push c (scanString r)
    else
      match r with
      | 'u' :: a :: b :: x :: y :: r =>
        match hex4 a b x y with
        | none => none
        | some n =>
          if n < 0xd800 ∨ 0xe000 ≤ n then push (Char.ofNat n) (scanString r)
          else
            match r with
            | '\\' :: 'u' :: a :: b :: x :: y :: r =>
              match hex4 a b x y with
              | none => none
              | some m =>
                if n < 0xdc00 ∧ 0xdc00 ≤ m ∧ m ≤ 0xdfff then
                  push (Char.ofNat (0x10000 + (n - 0xd800) * 0x400 + (m - 0xdc00))) (scanString r)
                else none
            | _ => none
      | e :: r =>
        match unescape e with
        | some d => push d (scanString r)
        | none => none
      | [] => none

def classifyNumber (cs : List Char) : Option Json :=
  if isWholeText cs then some (.int (Nat.ofDigitChars 10 cs 0))
  else if cs.head? = some '-' ∧ isWholeText cs.tail then
    some (.int (-(Nat.ofDigitChars 10 cs.tail 0 : Int)))
  else if h : isFloatText cs = true then some (.float ⟨cs,h⟩)
  else none

def scanNumber (cs : List Char) : Option (Json × List Char) :=
  (classifyNumber (cs.takeWhile isNumberChar)).map fun v => (v, cs.dropWhile isNumberChar)

mutual

/-- One value and what follows it. Each call consumes a character, so the fuel
never runs out on a text shorter than it. -/
def scanValue : Nat → List Char → Option (Json × List Char)
  | 0, _ => none
  | n + 1, cs =>
    match skipSpace cs with
    | [] => none
    | c :: r =>
      if c = '"' then (scanString r).map fun p => (.str (String.ofList p.1), p.2)
      else if c = '[' then
        if (skipSpace r).head? = some ']' then some (.arr [], (skipSpace r).tail)
        else (scanItems n r).map fun p => (.arr p.1, p.2)
      else if c = '\x7b' then
        if (skipSpace r).head? = some '\x7d' then some (.obj [], (skipSpace r).tail)
        else (scanMembers n r).map fun p => (.obj (ofPairs p.1), p.2)
      else if (c :: r).take 4 = ['n', 'u', 'l', 'l'] then some (.null, r.drop 3)
      else if (c :: r).take 4 = ['t', 'r', 'u', 'e'] then some (.bool true, r.drop 3)
      else if (c :: r).take 5 = ['f', 'a', 'l', 's', 'e'] then some (.bool false, r.drop 4)
      else scanNumber (c :: r)

def scanItems : Nat → List Char → Option (List Json × List Char)
  | 0, _ => none
  | n + 1, cs =>
    match scanValue n cs with
    | none => none
    | some (v, r) =>
      match skipSpace r with
      | ',' :: r => (scanItems n r).map fun p => (v :: p.1, p.2)
      | ']' :: r => some ([v], r)
      | _ => none

def scanMembers : Nat → List Char → Option (List (String × Json) × List Char)
  | 0, _ => none
  | n + 1, cs =>
    match skipSpace cs with
    | '"' :: r =>
      match scanString r with
      | none => none
      | some (k, r) =>
        match skipSpace r with
        | ':' :: r =>
          match scanValue n r with
          | none => none
          | some (v, r) =>
            match skipSpace r with
            | ',' :: r => (scanMembers n r).map fun p => ((String.ofList k, v) :: p.1, p.2)
            | '\x7d' :: r => some ([(String.ofList k, v)], r)
            | _ => none
        | _ => none
    | _ => none

end

def loads (s : String) : Option Json :=
  match scanValue (s.toList.length + 1) s.toList with
  | some (v, r) => if skipSpace r = [] then some v else none
  | none => none

end Yeoman.Library.Json
