import Argus.Lib.JsNumber
import Argus.Lib.Numerals

namespace Argus.Schedulers

/-!
# SNMP values

The values of varbinds, and the conversions of `services/snmp.ts`.

* `SnmpValue` — numbers, texts, and the bytes of octet strings and of 64-bit counters.
* `toBigInt`, `renderScalar`, `formatMac` — the conversions.
* `fmtBytes`, `renderCell` — the text in the cell of a table.
-/

/-- The value of a varbind.  The numbers of SNMP are integers. -/
inductive SnmpValue
  | null
  | int (n : ℤ)
  | text (s : String)
  | buffer (bytes : List UInt8)
deriving DecidableEq, Repr

/-! ### Text -/

/-- The UTF-8 decoder of the Encoding Standard, in the middle of a character. -/
structure Utf8State where
  codePoint : ℕ
  needed : ℕ
  lower : ℕ := 0x80
  upper : ℕ := 0xBF

/-- A byte that begins a character: what it stands for, or what has to follow. -/
def utf8Start (b : ℕ) : List Char × Option Utf8State :=
  if b < 0x80 then ([Char.ofNat b], none)
  else if 0xC2 ≤ b ∧ b ≤ 0xDF then ([], some { codePoint := b % 0x20, needed := 1 })
  else if 0xE0 ≤ b ∧ b ≤ 0xEF then
    ([], some { codePoint := b % 0x10, needed := 2, lower := if b = 0xE0 then 0xA0 else 0x80
                upper := if b = 0xED then 0x9F else 0xBF })
  else if 0xF0 ≤ b ∧ b ≤ 0xF4 then
    ([], some { codePoint := b % 0x08, needed := 3, lower := if b = 0xF0 then 0x90 else 0x80
                upper := if b = 0xF4 then 0x8F else 0xBF })
  else ([Char.ofNat 0xFFFD], none)

/-- The characters of UTF-8; a sequence that is none gives replacement characters. -/
def utf8Chars : List UInt8 → Option Utf8State → List Char
  | [], none => []
  | [], some _ => [Char.ofNat 0xFFFD]
  | b :: bytes, none =>
    let (cs, s) := utf8Start b.toNat
    cs ++ utf8Chars bytes s
  | b :: bytes, some s =>
    if s.lower ≤ b.toNat ∧ b.toNat ≤ s.upper then
      let codePoint := s.codePoint * 0x40 + b.toNat % 0x40
      if s.needed = 1 then Char.ofNat codePoint :: utf8Chars bytes none
      else utf8Chars bytes (some { codePoint, needed := s.needed - 1 })
    else
      let (cs, s) := utf8Start b.toNat
      Char.ofNat 0xFFFD :: cs ++ utf8Chars bytes s

/-- `buffer.toString("utf8")`. -/
def utf8Text (bytes : List UInt8) : String := String.ofList (utf8Chars bytes none)

/-! ### Conversions -/

def toBigInt : SnmpValue → ℤ
  | .null => 0
  | .int n => n
  | .text s => match JsNumber.ofText s with
    | .fin x => ⌊x.trunc.val⌋
    | _ => 0
  | .buffer bytes => bytes.foldl (fun n b => n * 256 + b.toNat) (0 : ℕ)

def renderScalar : SnmpValue → String
  | .null => "null"
  | .int n => toString n
  | .text s => s
  | .buffer bytes => utf8Text bytes

/-- Two hexadecimal digits. -/
def hexByte (b : UInt8) : List Char := [Nat.digitChar (b.toNat / 16), Nat.digitChar (b.toNat % 16)]

def formatMac : SnmpValue → String
  | .buffer bytes =>
    if bytes.all (· == 0) then ""
    else String.intercalate ":" (bytes.map fun b => String.ofList (hexByte b))
  | _ => ""

/-! ### Cells of tables -/

/-- `v.toFixed(digits)` for a number that is not negative. -/
def toFixed (v : ℚ) (digits : ℕ) : String :=
  if 10 ^ 21 ≤ v then JsNumber.toText (.ofRat v)
  else
    let n := ⌊v * 10 ^ digits + 1 / 2⌋₊
    if digits = 0 then toString n
    else
      toString (n / 10 ^ digits) ++ "." ++ String.ofList (Numerals.pad digits (n % 10 ^ digits))

/-- The loop of `fmtBytes`, with the units that are left.  A quotient by 1024 is exact. -/
def byteUnit (v : ℚ) : List String → ℕ → ℚ × ℕ × String
  | [], i => (v, i, "")
  | [u], i => (v, i, u)
  | u :: units, i => if 1024 ≤ v then byteUnit (v / 1024) units (i + 1) else (v, i, u)

def fmtBytes : JsNumber → String
  | .fin n =>
    if n.val ≤ 0 then "0"
    else
      let (v, i, u) := byteUnit n.val ["B", "KB", "MB", "GB", "TB", "PB"] 0
      toFixed v (if 10 ≤ v ∨ i = 0 then 0 else 1) ++ " " ++ u
  | _ => "0"

/-- `NUMERIC_TYPES`: Integer, Counter32, Gauge32, TimeTicks and Counter64. -/
def numericTypes : List ℕ := [2, 65, 66, 67, 70]

/-- A label of an enumeration; an empty one counts for nothing. -/
def mapped (labels : List (String × String)) (s : String) : Option String :=
  (labels.lookup s).filter (· ≠ "")

/-- A text, as its label or with its unit. -/
def renderText (unit : Option String) (labels : List (String × String)) (s : String) : String :=
  match mapped labels s, unit with
  | some label, _ => label
  | none, some u => if u ≠ "" ∧ u ≠ "bytes" ∧ s ≠ "" then s ++ " " ++ u else s
  | none, none => s

def renderCell (type : ℕ) (value : SnmpValue) (unit : Option String)
    (labels : List (String × String)) : String :=
  if type ∈ numericTypes then
    let n := toBigInt value
    if (mapped labels (toString n)).isNone ∧ unit = some "bytes" then fmtBytes (.ofRat n)
    else renderText unit labels (toString n)
  else renderText unit labels (renderScalar value)

end Argus.Schedulers
