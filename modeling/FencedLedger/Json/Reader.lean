import FencedLedger.Json.Number
import FencedLedger.Text.Quoted

/-!
# Reading JSON text

Values are read from the left, each by a reader that knows the type it wants and
answers what follows. So the first fault in the text decides the error, whether
it is one of syntax or a value of another type than the wanted one. A value that
nobody wants is passed over by `skip`, which only checks that it is well formed.
-/

namespace FencedLedger

namespace Json

/-- A value that is not the wanted one. -/
inductive Found where
  | null
  | boolean (b : Bool)
  | number (n : Number)
  | string (text : String)
  | sequence
  | map

/-- A value as messages name it. -/
def Found.text : Found → String
  | .null => "null"
  | .boolean b => "boolean `" ++ toString b ++ "`"
  | .number (.integer n) => "integer `" ++ toString n ++ "`"
  | .number (.double x) => "floating point `" ++ Number.doubleText x ++ "`"
  | .string text => "string " ++ Text.quoted text
  | .sequence => "sequence"
  | .map => "map"

/-- Why a text does not give the wanted value. -/
inductive ReadError where
  /-- The text is not JSON, or ends early. -/
  | malformed
  /-- A value has another type than the wanted one. -/
  | wrongType (found : Found) (wanted : String)
  /-- A value has the wanted type and lies outside of its range. -/
  | outOfRange (found : Found) (wanted : String)
  /-- A field is given twice. -/
  | duplicateField (name : String)
  /-- A string does not spell what it should. -/
  | unreadable (reason : String)

/-- The words for a value that does not fit, and none for text that is not JSON. -/
def ReadError.message? : ReadError → Option String
  | .malformed => none
  | .wrongType found wanted => some ("invalid type: " ++ found.text ++ ", expected " ++ wanted)
  | .outOfRange found wanted => some ("invalid value: " ++ found.text ++ ", expected " ++ wanted)
  | .duplicateField name => some ("duplicate field `" ++ name ++ "`")
  | .unreadable reason => some reason

/-- Whether a character may stand between tokens. -/
def isBlank (c : Char) : Bool := c == ' ' || c == '\n' || c == '\t' || c == '\r'

/-- The text from its first token on. -/
def dropBlanks (text : List Char) : List Char := text.dropWhile isBlank

/-- The text behind the given characters. -/
def behind : (word text : List Char) → Except ReadError (List Char)
  | [], text => .ok text
  | w :: word, c :: text => if w = c then behind word text else .error .malformed
  | _ :: _, [] => .error .malformed

/-! ### Strings -/

/-- The value of a hexadecimal digit of either case. -/
def hexDigit? (c : Char) : Option Nat :=
  if '0' ≤ c ∧ c ≤ '9' then some (c.toNat - 48)
  else if 'a' ≤ c ∧ c ≤ 'f' then some (c.toNat - 87)
  else if 'A' ≤ c ∧ c ≤ 'F' then some (c.toNat - 55)
  else none

/-- The unit that four hexadecimal digits spell. -/
def unit? (a b c d : Char) : Option Nat := do
  let a ← hexDigit? a
  let b ← hexDigit? b
  let c ← hexDigit? c
  let d ← hexDigit? d
  return ((a * 16 + b) * 16 + c) * 16 + d

/-- Whether a unit is the first half of a character. -/
def isLeading (n : Nat) : Bool := 0xD800 ≤ n && n ≤ 0xDBFF

/-- Whether a unit is the second half of a character. -/
def isTrailing (n : Nat) : Bool := 0xDC00 ≤ n && n ≤ 0xDFFF

/-- The character of a short escape. -/
def shortEscape? : Char → Option Char
  | '"' => some '"'
  | '\\' => some '\\'
  | '/' => some '/'
  | 'b' => some '\x08'
  | 'f' => some '\x0c'
  | 'n' => some '\n'
  | 'r' => some '\r'
  | 't' => some '\t'
  | _ => none

/-- Read a string from behind its opening quote. -/
def stringBody : List Char → Except ReadError (List Char × List Char)
  | [] => .error .malformed
  | '"' :: rest => .ok ([], rest)
  | '\\' :: 'u' :: a :: b :: c :: d :: rest =>
      match unit? a b c d with
      | none => .error .malformed
      | some high =>
          if isLeading high then
            match rest with
            | '\\' :: 'u' :: a :: b :: c :: d :: rest =>
                match unit? a b c d with
                | none => .error .malformed
                | some low =>
                    if isTrailing low then do
                      let (cs, rest) ← stringBody rest
                      let n := 0x10000 + (high - 0xD800) * 0x400 + (low - 0xDC00)
                      .ok (Char.ofNat n :: cs, rest)
                    else .error .malformed
            | _ => .error .malformed
          else if isTrailing high then .error .malformed
          else do
            let (cs, rest) ← stringBody rest
            .ok (Char.ofNat high :: cs, rest)
  | '\\' :: c :: rest =>
      match shortEscape? c with
      | none => .error .malformed
      | some e => do
          let (cs, rest) ← stringBody rest
          .ok (e :: cs, rest)
  | c :: rest =>
      if c.toNat < 0x20 then .error .malformed
      else do
        let (cs, rest) ← stringBody rest
        .ok (c :: cs, rest)

/-! ### Values of a wanted type -/

/-- The error for a value of another type than the wanted one. -/
def wrongType (wanted : String) (text : List Char) : ReadError :=
  let word (rest : List Char) (found : Found) : List Char → ReadError := fun text =>
    match behind rest text with
    | .ok _ => .wrongType found wanted
    | .error e => e
  let number (negative : Bool) (text : List Char) : ReadError :=
    match Number.read? negative text with
    | some (n, _) => .wrongType (.number n) wanted
    | none => .malformed
  match text with
  | [] => .malformed
  | 'n' :: rest => word ['u', 'l', 'l'] .null rest
  | 't' :: rest => word ['r', 'u', 'e'] (.boolean true) rest
  | 'f' :: rest => word ['a', 'l', 's', 'e'] (.boolean false) rest
  | '-' :: rest => number true rest
  | '"' :: rest =>
      match stringBody rest with
      | .ok (cs, _) => .wrongType (.string (String.ofList cs)) wanted
      | .error e => e
  | '[' :: _ => .wrongType .sequence wanted
  | '{' :: _ => .wrongType .map wanted
  | c :: rest => if (Decimal.digit? c).isSome then number false (c :: rest) else .malformed

/-- Read a string. -/
def readString (text : List Char) : Except ReadError (String × List Char) :=
  match dropBlanks text with
  | '"' :: rest => do
      let (cs, rest) ← stringBody rest
      .ok (String.ofList cs, rest)
  | text => .error (wrongType "a string" text)

/-- Read a truth value. -/
def readBool (text : List Char) : Except ReadError (Bool × List Char) :=
  match dropBlanks text with
  | 't' :: rest => (behind ['r', 'u', 'e'] rest).map (true, ·)
  | 'f' :: rest => (behind ['a', 'l', 's', 'e'] rest).map (false, ·)
  | text => .error (wrongType "a boolean" text)

/-- Read an integer from `low` to `high`. -/
def readInteger (wanted : String) (low high : Int) (text : List Char) :
    Except ReadError (Int × List Char) :=
  let number (negative : Bool) (text : List Char) : Except ReadError (Int × List Char) :=
    match Number.read? negative text with
    | none => .error .malformed
    | some (.double x, _) => .error (.wrongType (.number (.double x)) wanted)
    | some (.integer n, rest) =>
        if low ≤ n ∧ n ≤ high then .ok (n, rest)
        else .error (.outOfRange (.number (.integer n)) wanted)
  match dropBlanks text with
  | '-' :: rest => number true rest
  | c :: rest =>
      if (Decimal.digit? c).isSome then number false (c :: rest)
      else .error (wrongType wanted (c :: rest))
  | [] => .error .malformed

/-- Read a signed 64-bit word. -/
def readInt64 (text : List Char) : Except ReadError (Int64 × List Char) := do
  let (n, rest) ← readInteger "i64" Int64.minValue.toInt Int64.maxValue.toInt text
  .ok (Int64.ofInt n, rest)

/-- Read a count that fits an unsigned 64-bit word. -/
def readCount (text : List Char) : Except ReadError (Nat × List Char) := do
  let (n, rest) ← readInteger "usize" 0 (UInt64.size - 1) text
  .ok (n.toNat, rest)

/-! ### Values that nobody wants -/

/-- The brackets that a value may be nested in. -/
inductive Bracket where
  | square
  | curly
  deriving DecidableEq, Repr

/-- What the next character of a value may be. -/
inductive SkipPhase where
  /-- A value. -/
  | value
  /-- The first value of a sequence, or its end. -/
  | firstValue
  /-- The first key of a map, or its end. -/
  | firstKey
  /-- A key. -/
  | key
  /-- A colon. -/
  | colon
  /-- The rest of a word. -/
  | word (rest : List Char)
  /-- A character of a string, which is a key or a value. -/
  | string (isKey : Bool)
  /-- The second character of an escape. -/
  | escape (isKey : Bool)
  /-- A hexadecimal digit, of which so many are left. -/
  | hex (isKey : Bool) (left : Nat)
  /-- The first digit of a number. -/
  | numberStart
  /-- What may follow a leading zero. -/
  | zero
  /-- A further digit of the whole part. -/
  | whole
  /-- The first digit behind the point. -/
  | fractionStart
  /-- A further digit behind the point. -/
  | fraction
  /-- The sign or the first digit of an exponent. -/
  | exponentSign
  /-- The first digit of an exponent. -/
  | exponentStart
  /-- A further digit of an exponent. -/
  | exponent
  /-- What may follow a value inside brackets. -/
  | after
  deriving Repr

/-- What a character did to a value being passed over. -/
inductive Skipped where
  /-- The value goes on. -/
  | more (open_ : List Bracket) (phase : SkipPhase)
  /-- The character was the last of the value. -/
  | done
  /-- The value ended before the character. -/
  | doneBefore
  /-- The character fits nowhere. -/
  | bad

/-- Close a value inside the given brackets with its last character. -/
def Skipped.close : List Bracket → Skipped
  | [] => .done
  | open_ => .more open_ .after

/-- The character behind a complete value inside the given brackets. -/
def Skipped.afterValue (open_ : List Bracket) (c : Char) : Skipped :=
  match open_ with
  | [] => .doneBefore
  | b :: outer =>
      if isBlank c then .more (b :: outer) .after
      else match b with
        | .square =>
            if c = ',' then .more (b :: outer) .value
            else if c = ']' then close outer
            else .bad
        | .curly =>
            if c = ',' then .more (b :: outer) .key
            else if c = '}' then close outer
            else .bad

/-- The first character of a value inside the given brackets. -/
def Skipped.value (open_ : List Bracket) (c : Char) : Skipped :=
  if c = '"' then .more open_ (.string false)
  else if c = '[' then .more (.square :: open_) .firstValue
  else if c = '{' then .more (.curly :: open_) .firstKey
  else if c = 'n' then .more open_ (.word ['u', 'l', 'l'])
  else if c = 't' then .more open_ (.word ['r', 'u', 'e'])
  else if c = 'f' then .more open_ (.word ['a', 'l', 's', 'e'])
  else if c = '-' then .more open_ .numberStart
  else if c = '0' then .more open_ .zero
  else if (Decimal.digit? c).isSome then .more open_ .whole
  else .bad

/-- Take one character of a value inside the given brackets. -/
def SkipPhase.step (phase : SkipPhase) (open_ : List Bracket) (c : Char) : Skipped :=
  let digit := (Decimal.digit? c).isSome
  let isMark := c = 'e' || c = 'E'
  match phase with
  | .value => if isBlank c then .more open_ .value else Skipped.value open_ c
  | .firstValue =>
      if isBlank c then .more open_ .firstValue
      else if c = ']' then .close open_.tail
      else .value open_ c
  | .firstKey =>
      if isBlank c then .more open_ .firstKey
      else if c = '}' then .close open_.tail
      else if c = '"' then .more open_ (.string true)
      else .bad
  | .key =>
      if isBlank c then .more open_ .key
      else if c = '"' then .more open_ (.string true)
      else .bad
  | .colon =>
      if isBlank c then .more open_ .colon
      else if c = ':' then .more open_ .value
      else .bad
  | .word [] => .bad
  | .word (w :: rest) =>
      if c ≠ w then .bad
      else if rest = [] then .close open_
      else .more open_ (.word rest)
  | .string isKey =>
      if c = '"' then (if isKey then .more open_ .colon else .close open_)
      else if c = '\\' then .more open_ (.escape isKey)
      else if c.toNat < 0x20 then .bad
      else .more open_ (.string isKey)
  | .escape isKey =>
      if c = 'u' then .more open_ (.hex isKey 3)
      else if (shortEscape? c).isSome then .more open_ (.string isKey)
      else .bad
  | .hex isKey left =>
      if (hexDigit? c).isNone then .bad
      else match left with
        | 0 => .more open_ (.string isKey)
        | left + 1 => .more open_ (.hex isKey left)
  | .numberStart =>
      if c = '0' then .more open_ .zero
      else if digit then .more open_ .whole
      else .bad
  | .zero =>
      if digit then .bad
      else if c = '.' then .more open_ .fractionStart
      else if isMark then .more open_ .exponentSign
      else .afterValue open_ c
  | .whole =>
      if digit then .more open_ .whole
      else if c = '.' then .more open_ .fractionStart
      else if isMark then .more open_ .exponentSign
      else .afterValue open_ c
  | .fractionStart => if digit then .more open_ .fraction else .bad
  | .fraction =>
      if digit then .more open_ .fraction
      else if isMark then .more open_ .exponentSign
      else .afterValue open_ c
  | .exponentSign =>
      if c = '+' || c = '-' then .more open_ .exponentStart
      else if digit then .more open_ .exponent
      else .bad
  | .exponentStart => if digit then .more open_ .exponent else .bad
  | .exponent => if digit then .more open_ .exponent else .afterValue open_ c
  | .after => .afterValue open_ c

/-- Pass over the rest of a value inside the given brackets. -/
def skipFrom (open_ : List Bracket) (phase : SkipPhase) :
    List Char → Except ReadError (List Char)
  | [] => .error .malformed
  | c :: rest =>
      match phase.step open_ c with
      | .more open_ phase => skipFrom open_ phase rest
      | .done => .ok rest
      | .doneBefore => .ok (c :: rest)
      | .bad => .error .malformed

/-- Pass over a value. -/
def skip (text : List Char) : Except ReadError (List Char) := skipFrom [] .value text

/-! ### Records and documents -/

/-- The text behind the colon of a member. -/
def behindColon (text : List Char) : Except ReadError (List Char) :=
  behind [':'] (dropBlanks text)

/-- Read the members of a map from behind its opening brace, or from behind a
member. Each is handed to `member` by name, with the text behind the name. There
are fewer members than characters, so the length of the text is enough fuel. -/
def readMembers {σ : Type}
    (member : σ → String → List Char → Except ReadError (σ × List Char)) :
    (fuel : Nat) → (first : Bool) → σ → List Char → Except ReadError (σ × List Char)
  | 0, _, _, _ => .error .malformed
  | fuel + 1, first, acc, text =>
      match first, dropBlanks text with
      | _, '}' :: rest => .ok (acc, rest)
      | true, '"' :: rest => do
          let (name, rest) ← stringBody rest
          let (acc, rest) ← member acc (String.ofList name) rest
          readMembers member fuel false acc rest
      | false, ',' :: rest =>
          match dropBlanks rest with
          | '"' :: rest => do
              let (name, rest) ← stringBody rest
              let (acc, rest) ← member acc (String.ofList name) rest
              readMembers member fuel false acc rest
          | _ => .error .malformed
      | _, _ => .error .malformed

/-- Read the elements of a sequence from behind its opening bracket, each by the
reader at its place. There may be fewer elements than readers and not more. -/
def readElements {σ : Type} :
    (readers : List (σ → List Char → Except ReadError (σ × List Char))) → (first : Bool) → σ →
      List Char → Except ReadError (σ × List Char)
  | [], _, acc, text =>
      match dropBlanks text with
      | ']' :: rest => .ok (acc, rest)
      | _ => .error .malformed
  | reader :: readers, first, acc, text =>
      match first, dropBlanks text with
      | _, ']' :: rest => .ok (acc, rest)
      | true, text => do
          let (acc, rest) ← reader acc text
          readElements readers false acc rest
      | false, ',' :: rest =>
          match dropBlanks rest with
          | [] | ']' :: _ => .error .malformed
          | rest => do
              let (acc, rest) ← reader acc rest
              readElements readers false acc rest
      | false, _ => .error .malformed

/-- Read a value that makes up the whole text. -/
def readDocument {α : Type} (reader : List Char → Except ReadError (α × List Char))
    (text : List Char) : Except ReadError α := do
  let (value, rest) ← reader text
  match dropBlanks rest with
  | [] => .ok value
  | _ => .error .malformed

end Json

end FencedLedger
