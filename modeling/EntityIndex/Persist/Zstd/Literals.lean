import EntityIndex.Persist.Zstd.Huffman

/-!
# The literals section of a compressed block

A compressed block starts with its literals: raw bytes, one byte repeated, or bytes coded with a
prefix code that is either described here or, for a treeless section, the one of the last
compressed literals of the frame. The header gives the kind, the number of literals and, for
coded literals, the length of the coded bytes and whether they form one stream or four.

The number of literals may not pass the window nor the largest block.
-/

namespace EntityIndex.Zstd

/-- The largest block content. -/
def blockMax : Nat := 131072

/-- How literals are stored. -/
inductive LiteralsKind where
  /-- Bytes as they are. -/
  | raw
  /-- One byte, repeated. -/
  | repeated
  /-- Prefix-coded bytes with their code's description. -/
  | coded
  /-- Prefix-coded bytes with the code of the previous coded literals. -/
  | treeless
  deriving DecidableEq

/-- The header of a literals section. -/
structure LiteralsHeader where
  /-- How the literals are stored. -/
  kind : LiteralsKind
  /-- The number of literals. -/
  count : Nat
  /-- The length of the coded bytes, for coded literals. -/
  coded : Nat
  /-- Whether coded literals come in four streams. -/
  four : Bool
  /-- The length of the header. -/
  size : Nat

/-- Read the header of a literals section from the start of a block body. -/
def LiteralsHeader.read? (body : Array UInt8) : Option LiteralsHeader := do
  let b (i : Nat) : Nat := (body.getD i 0).toNat
  let b0 := b 0
  let fmt := b0 / 4 % 4
  let kind := match b0 % 4 with
    | 0 => LiteralsKind.raw
    | 1 => .repeated
    | 2 => .coded
    | _ => .treeless
  if kind = .raw ∨ kind = .repeated then
    if fmt % 2 = 0 then pure ⟨kind, b0 / 8, 0, false, 1⟩
    else if fmt = 1 then pure ⟨kind, b0 / 16 + b 1 * 16, 0, false, 2⟩
    else if body.size < 3 then none
    else pure ⟨kind, b0 / 16 + b 1 * 16 + b 2 * 4096, 0, false, 3⟩
  else
    let (size, bits) := if fmt < 2 then (3, 10) else if fmt = 2 then (4, 14) else (5, 18)
    if body.size < size then none
    let n := b0 / 16 + fromLE (slice body 1 size) * 16
    pure ⟨kind, n % Nat.pow 2 bits, n / Nat.pow 2 bits, fmt ≠ 0, size⟩

/-- Decode coded bytes with a table: one stream or four. -/
def HuffTable.literals (t : HuffTable) (four : Bool) (bytes : List UInt8) (n : Nat) :
    Option (List UInt8) :=
  if four then t.fourStreams bytes n else t.stream bytes n

/-- The literals of a block body, the position after them and the prefix code to pass on, given
the window and the code passed on so far. -/
def readLiterals (body : Array UInt8) (window : Nat) (code : Option HuffTable) :
    Option (List UInt8 × Nat × Option HuffTable) := do
  let h ← LiteralsHeader.read? body
  if window < h.count ∨ blockMax < h.count then none
  let start := h.size
  match h.kind with
  | .raw =>
    if body.size < start + h.count then none
    pure (slice body start (start + h.count), start + h.count, code)
  | .repeated =>
    let b ← body[start]?
    pure (List.replicate h.count b, start + 1, code)
  | .treeless =>
    let stop := start + h.coded
    if body.size < stop then none
    let t ← code
    let lits ← t.literals h.four (slice body start stop) h.count
    pure (lits, stop, code)
  | .coded =>
    let stop := start + h.coded
    if body.size < stop then none
    let (ws, after) ← readWeights body start stop
    let t ← HuffTable.ofWeights? ws
    let lits ← t.literals h.four (slice body after stop) h.count
    pure (lits, stop, some t)

end EntityIndex.Zstd
