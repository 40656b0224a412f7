import BvexLink.Wire.Utf8

/-!
# BvexLink.Wire.Json

JSON documents: values, the compact printer and a parser for exactly one complete document.

A number is an `int` or a `float`. A float value is its own text (`FloatLit`, a token of the
number grammar with a fraction or an exponent), so nothing here depends on how a program rounds.
The three words for numbers that are not finite are values as well (`Constant`); `standard` tells
the documents without them. Strings are sequences of Unicode scalar values. The parser keeps the
members of an object in order and with repetitions; `field` reads them with the last one winning.
-/

namespace Wire

/-! ## Number tokens -/

def numChar (c : Char) : Bool :=
  c.isDigit || c == '-' || c == '+' || c == '.' || c == 'e' || c == 'E'

/-- Digits without a leading zero. -/
def isNatToken : List Char → Bool
  | [] => false
  | ['0'] => true
  | d :: ds => d != '0' && (d :: ds).all Char.isDigit

def stripMinus : List Char → List Char
  | '-' :: r => r
  | r => r

def stripSign : List Char → List Char
  | '-' :: r => r
  | '+' :: r => r
  | r => r

def isDigits (ds : List Char) : Bool := !ds.isEmpty && ds.all Char.isDigit

def isExpToken : List Char → Bool
  | 'e' :: r => isDigits (stripSign r)
  | 'E' :: r => isDigits (stripSign r)
  | _ => false

/-- What follows the integer part of a number that is not an integer. -/
def isFracExp : List Char → Bool
  | '.' :: r =>
    isDigits (r.takeWhile Char.isDigit) &&
      ((r.dropWhile Char.isDigit).isEmpty || isExpToken (r.dropWhile Char.isDigit))
  | r => isExpToken r

def isFloatToken (t : List Char) : Bool :=
  isNatToken ((stripMinus t).takeWhile Char.isDigit) &&
    isFracExp ((stripMinus t).dropWhile Char.isDigit)

def intToken : List Char → Option Int
  | '-' :: ds => if isNatToken ds then some (-(Nat.ofDigitChars 10 ds 0 : Int)) else none
  | ds => if isNatToken ds then some (Nat.ofDigitChars 10 ds 0) else none

/-- A number token with a fraction or an exponent. -/
structure FloatLit where
  text : List Char
  ok : isFloatToken text = true
  deriving DecidableEq

theorem isFloatToken_zero : isFloatToken "0.0".toList = true := by decide

/-- The words that Python's readers take for a number beyond the grammar of JSON. -/
inductive Constant where
  | nan
  | infinity
  | negInfinity
  deriving DecidableEq

def Constant.text : Constant → List Char
  | .nan => ['N', 'a', 'N']
  | .infinity => ['I', 'n', 'f', 'i', 'n', 'i', 't', 'y']
  | .negInfinity => ['-', 'I', 'n', 'f', 'i', 'n', 'i', 't', 'y']

inductive Json where
  | null
  | bool (b : Bool)
  | int (z : Int)
  | float (l : FloatLit)
  | constant (c : Constant)
  | str (s : String)
  | arr (items : List Json)
  | obj (members : List (String × Json))

namespace Json

/-- The member `k` of an object; of several, the last. -/
def field (ms : List (String × Json)) (k : String) : Option Json :=
  (ms.reverse.find? fun m => m.1 == k).map (·.2)

theorem field_mem {ms : List (String × Json)} {k : String} {v : Json}
    (h : field ms k = some v) : (k, v) ∈ ms := by
  simp only [field, Option.map_eq_some_iff] at h
  obtain ⟨⟨k', v'⟩, hf, rfl⟩ := h
  have hk := List.find?_some hf
  simp only [beq_iff_eq] at hk
  subst hk
  exact List.mem_reverse.mp (List.mem_of_find?_eq_some hf)

/-! ## The compact printer -/

def hexDigit (n : Nat) : Char := if n < 10 then Char.ofNat (48 + n) else Char.ofNat (87 + n)

def escChar (c : Char) : List Char :=
  if c = '"' then ['\\', '"']
  else if c = '\\' then ['\\', '\\']
  else if c = '\x08' then ['\\', 'b']
  else if c = '\x0c' then ['\\', 'f']
  else if c = '\n' then ['\\', 'n']
  else if c = '\r' then ['\\', 'r']
  else if c = '\t' then ['\\', 't']
  else if c.toNat < 32 then ['\\', 'u', '0', '0', hexDigit (c.toNat / 16), hexDigit (c.toNat % 16)]
  else [c]

def escChars (cs : List Char) : List Char := cs.flatMap escChar

def printStr (s : String) : List Char := '"' :: (escChars s.toList ++ ['"'])

def printInt : Int → List Char
  | .ofNat n => Nat.toDigits 10 n
  | .negSucc n => '-' :: Nat.toDigits 10 (n + 1)

mutual
def print : Json → List Char
  | .null => ['n', 'u', 'l', 'l']
  | .bool true => ['t', 'r', 'u', 'e']
  | .bool false => ['f', 'a', 'l', 's', 'e']
  | .int z => printInt z
  | .float l => l.text
  | .constant c => c.text
  | .str s => printStr s
  | .arr [] => ['[', ']']
  | .arr (j :: js) => '[' :: (print j ++ printItems js)
  | .obj [] => ['{', '}']
  | .obj ((k, v) :: ms) => '{' :: (printStr k ++ ':' :: (print v ++ printMembers ms))
/-- The items after the first and the closing bracket. -/
def printItems : List Json → List Char
  | [] => [']']
  | j :: js => ',' :: (print j ++ printItems js)
/-- The members after the first and the closing brace. -/
def printMembers : List (String × Json) → List Char
  | [] => ['}']
  | (k, v) :: ms => ',' :: (printStr k ++ ':' :: (print v ++ printMembers ms))
end

/-! ## The parser -/

def isWs (c : Char) : Bool := c == ' ' || c == '\n' || c == '\r' || c == '\t'

def skipWs (s : List Char) : List Char := s.dropWhile isWs

def hexVal (c : Char) : Option Nat :=
  if 48 ≤ c.toNat ∧ c.toNat ≤ 57 then some (c.toNat - 48)
  else if 97 ≤ c.toNat ∧ c.toNat ≤ 102 then some (c.toNat - 87)
  else if 65 ≤ c.toNat ∧ c.toNat ≤ 70 then some (c.toNat - 55)
  else none

def hex4 : List Char → Option (Nat × List Char)
  | a :: b :: c :: d :: r =>
    match hexVal a, hexVal b, hexVal c, hexVal d with
    | some w, some x, some y, some z => some (w * 4096 + x * 256 + y * 16 + z, r)
    | _, _, _, _ => none
  | _ => none

/-- The part of a `\u` escape after the `u`. A high surrogate needs its low one; a lone low one
is refused. -/
def parseHex (s : List Char) : Option (Char × List Char) :=
  match hex4 s with
  | none => none
  | some (u, r) =>
    if 0xD800 ≤ u ∧ u < 0xDC00 then
      match r with
      | '\\' :: 'u' :: r' =>
        match hex4 r' with
        | none => none
        | some (v, r'') =>
          if 0xDC00 ≤ v ∧ v < 0xE000 then
            some (Char.ofNat (0x10000 + (u - 0xD800) * 0x400 + (v - 0xDC00)), r'')
          else none
      | _ => none
    else if 0xDC00 ≤ u ∧ u < 0xE000 then none
    else some (Char.ofNat u, r)

def parseEscape : List Char → Option (Char × List Char)
  | '"' :: r => some ('"', r)
  | '\\' :: r => some ('\\', r)
  | '/' :: r => some ('/', r)
  | 'b' :: r => some ('\x08', r)
  | 'f' :: r => some ('\x0c', r)
  | 'n' :: r => some ('\n', r)
  | 'r' :: r => some ('\r', r)
  | 't' :: r => some ('\t', r)
  | 'u' :: r => parseHex r
  | _ => none

/-- One character of a string, raw or escaped. -/
def parseUnit : List Char → Option (Char × List Char)
  | [] => none
  | '\\' :: r => parseEscape r
  | c :: r => if c.toNat < 32 then none else some (c, r)

/-- The contents of a string and its closing quote. -/
def parseStr : Nat → List Char → Option (List Char × List Char)
  | 0, _ => none
  | _ + 1, '"' :: r => some ([], r)
  | n + 1, s =>
    match parseUnit s with
    | none => none
    | some (c, r) =>
      match parseStr n r with
      | none => none
      | some (cs, t) => some (c :: cs, t)

def parseNumber (s : List Char) : Option (Json × List Char) :=
  let t := s.takeWhile numChar
  if h : isFloatToken t = true then some (.float ⟨t, h⟩, s.dropWhile numChar)
  else
    match intToken t with
    | some z => some (.int z, s.dropWhile numChar)
    | none => none

def parseConstant : List Char → Option (Json × List Char)
  | 'N' :: 'a' :: 'N' :: r => some (.constant .nan, r)
  | 'I' :: 'n' :: 'f' :: 'i' :: 'n' :: 'i' :: 't' :: 'y' :: r => some (.constant .infinity, r)
  | '-' :: 'I' :: 'n' :: 'f' :: 'i' :: 'n' :: 'i' :: 't' :: 'y' :: r =>
    some (.constant .negInfinity, r)
  | _ => none

mutual
/-- One value, after white space. The fuel bounds the nesting and the length together. -/
def parseValue : Nat → List Char → Option (Json × List Char)
  | 0, _ => none
  | n + 1, s =>
    match skipWs s with
    | '{' :: r =>
      match skipWs r with
      | '}' :: r' => some (.obj [], r')
      | r' =>
        match parseMembers n r' with
        | some (ms, t) => some (.obj ms, t)
        | none => none
    | '[' :: r =>
      match skipWs r with
      | ']' :: r' => some (.arr [], r')
      | r' =>
        match parseItems n r' with
        | some (js, t) => some (.arr js, t)
        | none => none
    | '"' :: r =>
      match parseStr n r with
      | some (cs, t) => some (.str (String.ofList cs), t)
      | none => none
    | 'n' :: 'u' :: 'l' :: 'l' :: r => some (.null, r)
    | 't' :: 'r' :: 'u' :: 'e' :: r => some (.bool true, r)
    | 'f' :: 'a' :: 'l' :: 's' :: 'e' :: r => some (.bool false, r)
    | r => (parseNumber r).or (parseConstant r)
/-- One or more members and the closing brace. -/
def parseMembers : Nat → List Char → Option (List (String × Json) × List Char)
  | 0, _ => none
  | n + 1, s =>
    match skipWs s with
    | '"' :: r =>
      match parseStr n r with
      | none => none
      | some (k, r1) =>
        match skipWs r1 with
        | ':' :: r2 =>
          match parseValue n r2 with
          | none => none
          | some (v, r3) =>
            match skipWs r3 with
            | ',' :: r4 =>
              match parseMembers n r4 with
              | some (ms, t) => some ((String.ofList k, v) :: ms, t)
              | none => none
            | '}' :: r4 => some ([(String.ofList k, v)], r4)
            | _ => none
        | _ => none
    | _ => none
/-- One or more items and the closing bracket. -/
def parseItems : Nat → List Char → Option (List Json × List Char)
  | 0, _ => none
  | n + 1, s =>
    match parseValue n s with
    | none => none
    | some (v, r) =>
      match skipWs r with
      | ',' :: r' =>
        match parseItems n r' with
        | some (vs, t) => some (v :: vs, t)
        | none => none
      | ']' :: r' => some ([v], r')
      | _ => none
end

/-- A text that is one complete JSON document. -/
def parseDoc (s : List Char) : Option Json :=
  match parseValue (s.length + 1) s with
  | some (j, r) => if skipWs r = [] then some j else none
  | none => none

example : (parseDoc "\x7b\"a\": [1, -2.5e1, -Infinity, \"x\\u0041\"]\x7d ".toList).map print =
    some "\x7b\"a\":[1,-2.5e1,-Infinity,\"xA\"]\x7d".toList := by decide +kernel

end Json
end Wire
