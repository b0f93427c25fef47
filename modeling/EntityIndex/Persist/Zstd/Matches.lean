import EntityIndex.Persist.Zstd.Bits
import Std.Data.HashMap

/-!
# Finding matches with two hash tables

The writer finds matches the way a double-hash finder does. At each position it hashes the next
eight bytes into a long table and the next five into a short table, each remembering the last
position with that hash and that position's first four bytes. A candidate counts when its first
four bytes agree; a long candidate is preferred, and a short one is first checked against a long
candidate one byte further on. A match is extended forwards as far as the bytes agree and
backwards over the pending literals.

After three matches the finder also tries the latest distance one byte ahead before hashing, and
after each match it tries the distance before the latest one at once, swapping the two when it
hits. Positions without a match are skipped faster the longer the run of literals grows: the
step is one plus the run length divided by 128. Nothing is searched within ten bytes of the end.
-/

namespace EntityIndex.Zstd

/-- A match: the literals before it, its length, its distance and the offset value it is
coded with (a repeat code, or the distance plus three). -/
structure Found where
  /-- Literals before the match. -/
  lits : Nat
  /-- Length of the match. -/
  len : Nat
  /-- Distance back to the copied bytes. -/
  dist : Nat
  /-- The offset value sent for the match. -/
  code : Nat

/-- Eight bytes from `i` as a little-endian word; bytes past the end read as zero. -/
def load64 (src : Array UInt8) (i : Nat) : UInt64 :=
  (List.range 8).foldr (fun k acc => (acc <<< 8) ||| (src.getD (i + k) 0).toUInt64) 0

/-- The first four bytes of a word. -/
def low32 (u : UInt64) : UInt32 := u.toUInt32

/-- Four bytes from `i` as a little-endian word. -/
def load32 (src : Array UInt8) (i : Nat) : UInt32 := low32 (load64 src i)

/-- The short-table hash: the low five bytes of a word, multiplied, top 15 bits. -/
def shortHash (u : UInt64) : Nat := (((u <<< 24) * 889523592379) >>> 49).toNat

/-- The long-table hash: all eight bytes of a word, multiplied, top 17 bits. -/
def longHash (u : UInt64) : Nat := ((u * 0xcf1bbcdcb7a56463) >>> 47).toNat

/-- Matches may reach this far back. -/
def maxDistance : Nat := Nat.pow 2 23

/-- The number of equal bytes from `a` and from `b` on. -/
def commonRun (src : Array UInt8) (a b : Nat) : Nat :=
  go src.size 0
where
  /-- Count with fuel. -/
  go : Nat → Nat → Nat
    | 0, n => n
    | fuel + 1, n =>
      if a + n < src.size ∧ b + n < src.size ∧ src.getD (a + n) 0 = src.getD (b + n) 0 then
        go fuel (n + 1)
      else n

/-- Extend a match at `s` copying from `t` backwards while the bytes before agree, `t` stays
above `low` and `s` above `floor`: the new starts and how many bytes were gained. -/
def extendBack (src : Array UInt8) (low floor : Nat) : Nat → Nat → Nat → Nat × Nat × Nat
  | 0, s, t => (s, t, 0)
  | fuel + 1, s, t =>
    if low < t ∧ floor < s ∧ src.getD (t - 1) 0 = src.getD (s - 1) 0 then
      let (s', t', k) := extendBack src low floor fuel (s - 1) (t - 1)
      (s', t', k + 1)
    else (s, t, 0)

/-- Where the finder stands. -/
structure Finder where
  /-- The position being looked at. -/
  s : Nat
  /-- Where the pending literals start. -/
  pending : Nat
  /-- The latest distance. -/
  offset1 : Nat := 1
  /-- The distance before it. -/
  offset2 : Nat := 4
  /-- Short table: position and first four bytes, by hash. -/
  short : Std.HashMap Nat (Nat × UInt32) := {}
  /-- Long table: position and first four bytes, by hash. -/
  long : Std.HashMap Nat (Nat × UInt32) := {}
  /-- Matches so far. -/
  found : Array Found := #[]

/-- Whether a table entry is a usable candidate for the bytes `v` at `s`. -/
def hits (e : Option (Nat × UInt32)) (s : Nat) (v : UInt32) : Option Nat :=
  match e with
  | some (p, w) => if p < s ∧ s - p < maxDistance ∧ w = v then some p else none
  | none => none

/-- Matches at the distance before the latest one, straight after a match, swapping the two
distances on each hit. -/
def repeatSecond (src : Array UInt8) (limit : Nat) : Nat → Finder → Finder
  | 0, f => f
  | fuel + 1, f =>
    let s := f.s
    let cv := load64 src s
    if f.offset2 > s ∨ load32 src (s - f.offset2) ≠ low32 cv then f
    else
      let l := 4 + commonRun src (s + 4) (s - f.offset2 + 4)
      let entry := (s, low32 cv)
      let f := { f with
        long := f.long.insert (longHash cv) entry
        short := f.short.insert (shortHash cv) entry
        found := f.found.push ⟨0, l, f.offset2, 1⟩
        s := s + l, pending := s + l
        offset1 := f.offset2, offset2 := f.offset1 }
      if limit ≤ f.s then f else repeatSecond src limit fuel f

/-- Record a match found at `s` copying from `t`, index around it, and try the second distance
after it. -/
def record (src : Array UInt8) (limit : Nat) (f : Finder) (s t : Nat) : Finder :=
  let low := s - maxDistance
  let l := commonRun src (s + 4) (t + 4) + 4
  let (s, t, k) := extendBack src low f.pending s s t
  let l := l + k
  let f := { f with
    offset2 := f.offset1, offset1 := s - t
    found := f.found.push ⟨s - f.pending, l, s - t, s - t + 3⟩
    s := s + l, pending := s + l }
  if limit ≤ f.s then f
  else
    let i0 := f.s - l + 1
    let i1 := f.s - 2
    let cv0 := load64 src i0
    let cv1 := load64 src i1
    let long := (f.long.insert (longHash cv0) (i0, low32 cv0)).insert (longHash cv1) (i1, low32 cv1)
    let short := (f.short.insert (shortHash (cv0 >>> 8)) (i0 + 1, low32 (cv0 >>> 8))).insert
      (shortHash (cv1 >>> 8)) (i1 + 1, low32 (cv1 >>> 8))
    let f := { f with long := long, short := short }
    if f.found.size ≤ 2 then f else repeatSecond src limit src.size f

/-- Search from the finder's position until the limit. -/
def search (src : Array UInt8) (limit : Nat) : Nat → Finder → Finder
  | 0, f => f
  | fuel + 1, f =>
    if limit ≤ f.s then f
    else
      let s := f.s
      let cv := load64 src s
      let hl := longHash cv
      let hs := shortHash cv
      let cl := f.long.get? hl
      let cs := f.short.get? hs
      let entry := (s, low32 cv)
      let f := { f with long := f.long.insert hl entry, short := f.short.insert hs entry }
      let rep := s + 1 - f.offset1
      if 2 < f.found.size ∧ f.offset1 ≤ s + 1 ∧ load32 src rep = low32 (cv >>> 8) then
        let length := 4 + commonRun src (s + 5) (rep + 4)
        let (start, _, k) := extendBack src (s - maxDistance) (f.pending + 1) s (s + 1) rep
        let f := { f with
          found := f.found.push ⟨start - f.pending, length + k, f.offset1, 1⟩
          s := s + length + 1, pending := s + length + 1 }
        search src limit fuel f
      else
        match hits cl s (low32 cv) with
        | some t => search src limit fuel (record src limit f s t)
        | none =>
          match hits cs s (low32 cv) with
          | some t =>
            let cv1 := load64 src (s + 1)
            let h1 := longHash cv1
            let c1 := f.long.get? h1
            let f := { f with long := f.long.insert h1 (s + 1, low32 cv1) }
            match hits c1 (s + 1) (low32 cv1) with
            | some t1 => search src limit fuel (record src limit f (s + 1) t1)
            | none => search src limit fuel (record src limit f s t)
          | none => search src limit fuel { f with s := s + 1 + (s - f.pending) / 128 }

/-- The matches of a block; blocks under 16 bytes are all literals. -/
def findMatches (src : Array UInt8) : Array Found :=
  if src.size < 16 then #[]
  else (search src (src.size - 10) (2 * src.size + 2) { s := 0, pending := 0 }).found

/-- The bytes of a block left as literals. -/
def literalCount (src : Array UInt8) (fs : Array Found) : Nat :=
  src.size - fs.foldl (fun acc f => acc + f.len) 0

end EntityIndex.Zstd
