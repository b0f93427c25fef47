import EntityIndex.Bytes.Hex
import EntityIndex.Text.Quote

/-!
# Workflow identifiers

Workflow records are identified by 128-bit UUIDs. The canonical text is 32 lowercase
hexadecimal digits grouped 8-4-4-4-12 by dashes. Reading also accepts the braced form, the
`urn:uuid:` form and the 32 digits without dashes, in either case, and says why other text is
refused. Identifier sets are listed
in the order of their canonical texts.
-/

namespace EntityIndex

/-- A 128-bit identifier. -/
structure Uuid where
  /-- The identifier as a number below `2^128`. -/
  value : Nat
  deriving DecidableEq, Hashable, Repr, Inhabited

namespace Uuid

/-- The 32 hexadecimal digits, most significant first. -/
def digits (u : Uuid) : List Char :=
  (List.range 32).reverse.map fun i => Hex.digit (u.value / Nat.pow 16 i)

/-- Canonical text: `xxxxxxxx-xxxx-xxxx-xxxx-xxxxxxxxxxxx`. -/
def text (u : Uuid) : String :=
  let ds := u.digits
  String.ofList (ds.take 8 ++ ['-'] ++ (ds.drop 8).take 4 ++ ['-'] ++ (ds.drop 12).take 4 ++
    ['-'] ++ (ds.drop 16).take 4 ++ ['-'] ++ ds.drop 20)

/-- The number of 32 hexadecimal digits. -/
def ofDigits? (cs : List Char) : Option Uuid :=
  if cs.length = 32 then
    (cs.foldl (fun acc c => acc.bind fun n => (Hex.digitValue? c).map fun d => n * 16 + d) (some 0)).map
      Uuid.mk
  else none

/-- The digits of the dashed form, checking the dashes; characters after the first 36 are not
looked at. -/
def undash (cs : List Char) : Option (List Char) :=
  if 36 ≤ cs.length ∧ cs.getD 8 ' ' = '-' ∧ cs.getD 13 ' ' = '-' ∧ cs.getD 18 ' ' = '-' ∧
      cs.getD 23 ' ' = '-' then
    some (cs.take 8 ++ (cs.drop 9).take 4 ++ (cs.drop 14).take 4 ++ (cs.drop 19).take 4 ++
      (cs.drop 24).take 12)
  else none

/-- Read an identifier, or say why the text is none. Lengths count bytes: 32 bytes are bare
digits; 36 the dashed form; 38 the dashed form after one opening byte, the closing byte
unread; 45 the dashed form after a `urn:uuid:` prefix in either case. -/
def parse (s : String) : Except String Uuid :=
  let bs := s.toUTF8.toList.map fun b => Char.ofNat b.toNat
  let format : Option Uuid → Except String Uuid
    | some u => .ok u
    | none => .error "invalid UUID format"
  match bs.length with
  | 32 => format (ofDigits? bs)
  | 36 => format ((undash bs).bind ofDigits?)
  | 38 => format ((undash (bs.drop 1)).bind ofDigits?)
  | 45 =>
    let pre := bs.take 9
    if String.ofList (pre.map Char.toLower) = "urn:uuid:" then
      format ((undash (bs.drop 9)).bind ofDigits?)
    else .error ("invalid urn prefix: " ++ Quote.quoteBytes ((s.toUTF8.toList).take 9))
  | n => .error ("invalid UUID length: " ++ toString n)

/-- Read an identifier in any accepted form. -/
def parse? (s : String) : Option Uuid :=
  match parse s with
  | .ok u => some u
  | .error _ => none

/-- The identifier standing for a serial number: the last group holds the number in decimal,
zero-padded to twelve places after any minus sign. Numbers that do not fit twelve places, and
negative ones, give no identifier. -/
def ofSerial (n : Int) : Except String Uuid :=
  let ds := (Nat.toDigits 10 n.natAbs)
  let sign := if n < 0 then ['-'] else []
  let pad := List.replicate (12 - sign.length - ds.length) '0'
  parse ("00000000-0000-0000-0000-" ++ String.ofList (sign ++ pad ++ ds))

/-- Whether `a` lists before `b` (by canonical text, which is numeric order). -/
def lt (a b : Uuid) : Bool := a.value < b.value

/-- A list of identifiers in listing order. -/
def sorted (xs : List Uuid) : List Uuid := xs.mergeSort fun a b => a.value ≤ b.value

end Uuid

end EntityIndex
