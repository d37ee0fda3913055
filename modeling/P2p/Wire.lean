import Mathlib.Data.List.Basic
import Mathlib.Algebra.Group.Nat.Basic

/-!
The wire side of `handler/protocol.rs`: `read_and_parse` and `parse_and_write`, over one
direction of a substream, given as the bytes its writer has written and whether it has closed it.

The transport's frame primitive (`read_one`, `write_one`) and the serialization
(`serde_json::to_vec`, `serde_json::from_slice`) are not among the sources. They are parameters:
`Framing`, which carries the laws the exchange relies on as fields, and `Codec`. `varintFraming`
meets those laws the way the transport frames (spec 4.1): `write_one` puts the unsigned varint of
the length before the data, and `read_one` reads it back with `unsigned_varint`'s decoding of a
`usize`, ten bytes at most. A decoded length is a `usize`, so at `max_size` `usize::MAX` the
`TooLarge` error never comes, and the `Other` arm of `read_and_parse` is never taken on it.
-/

namespace P2p

abbrev Bytes := List UInt8

inductive ErrorKind
  | invalidData
  | unexpectedEof
  | other
  deriving DecidableEq, Repr

structure IoError where
  kind : ErrorKind
  deriving DecidableEq, Repr

inductive ReadOneError
  | io (error : IoError)
  | tooLarge (requested max : Nat)
  deriving DecidableEq, Repr

/-- One direction of a substream: what its writer has written, and whether it has closed it. -/
structure HalfStream where
  bytes : Bytes
  closed : Bool
  deriving DecidableEq, Repr

namespace HalfStream

def empty : HalfStream := ⟨[], false⟩

def close (io : HalfStream) : HalfStream := { io with closed := true }

end HalfStream

inductive ReadOne
  | pending
  | ok (data : Bytes)
  | err (error : ReadOneError)
  deriving DecidableEq, Repr

/-- `usize::MAX` on a 64-bit target, the bound `read_and_parse` gives `read_one`. -/
def usizeMax : Nat := 18446744073709551615

/-- The transport's `write_one` (the bytes of one frame) and `read_one(io, max_size)`. A frame of
at most `max_size` bytes, `max_size` a `usize`, reads back as written, whether or not the writer
closed after it; an open direction with nothing written makes the reader wait; a closed direction
never does. -/
structure Framing where
  writeOne : Bytes → Bytes
  readOne : Nat → HalfStream → ReadOne
  readOne_writeOne : ∀ maxSize data closed, maxSize ≤ usizeMax → data.length ≤ maxSize →
    readOne maxSize ⟨writeOne data, closed⟩ = .ok data
  readOne_empty : ∀ maxSize, readOne maxSize .empty = .pending
  readOne_closed : ∀ maxSize bytes, readOne maxSize ⟨bytes, true⟩ ≠ .pending

/-- `serde_json::to_vec` and `serde_json::from_slice` for one message type; either can fail. A
`Vec<u8>` never holds more than `usize::MAX` bytes. -/
structure Codec (T : Type) where
  toVec : T → Option Bytes
  fromSlice : Bytes → Option T
  toVec_length : ∀ value buf, toVec value = some buf → buf.length ≤ usizeMax

variable {T : Type}

def Codec.RoundTrip (codec : Codec T) : Prop :=
  ∀ value buf, codec.toVec value = some buf → codec.fromSlice buf = some value

section Wire

variable (framing : Framing) (codec : Codec T)

/-- `read_and_parse`: `none` while `read_one` waits. A failure to decode is `InvalidData`, an I/O
error of `read_one` passes as it is, and any other error of it is `Other`. -/
def readAndParse (io : HalfStream) : Option (Except IoError T) :=
  match framing.readOne usizeMax io with
  | .pending => none
  | .ok bytes =>
    some (match codec.fromSlice bytes with
      | some value => .ok value
      | none => .error ⟨.invalidData⟩)
  | .err (.io error) => some (.error error)
  | .err _ => some (.error ⟨.other⟩)

/-- `parse_and_write`: serialize (a failure is `InvalidData`, with nothing written), write one
frame, close. -/
def parseAndWrite (io : HalfStream) (data : T) : Except IoError HalfStream :=
  match codec.toVec data with
  | some buf => .ok ⟨io.bytes ++ framing.writeOne buf, true⟩
  | none => .error ⟨.invalidData⟩

theorem readAndParse_empty : readAndParse framing codec .empty = none := by
  simp only [readAndParse, framing.readOne_empty]

theorem readAndParse_closed {io : HalfStream} (closed : io.closed = true) :
    (readAndParse framing codec io).isSome := by
  have waits : framing.readOne usizeMax io ≠ .pending := by
    obtain ⟨bytes, closed'⟩ := io
    obtain rfl : closed' = true := closed
    exact framing.readOne_closed usizeMax bytes
  unfold readAndParse
  split
  · contradiction
  all_goals rfl

theorem readAndParse_frame (roundTrip : codec.RoundTrip) {data : T} {buf : Bytes}
    (encoded : codec.toVec data = some buf) (closed : Bool) :
    readAndParse framing codec ⟨framing.writeOne buf, closed⟩ = some (.ok data) := by
  simp only [readAndParse, framing.readOne_writeOne _ _ _ le_rfl (codec.toVec_length _ _ encoded),
    roundTrip _ _ encoded]

theorem parseAndWrite_empty {data : T} {buf : Bytes} (encoded : codec.toVec data = some buf) :
    parseAndWrite framing codec .empty data = .ok ⟨framing.writeOne buf, true⟩ := by
  simp only [parseAndWrite, encoded, HalfStream.empty, List.nil_append]

/-- What `parse_and_write` writes on a fresh direction, `read_and_parse` reads back, whether or not
anything is read after the close. -/
theorem readAndParse_parseAndWrite (roundTrip : codec.RoundTrip) {data : T} {io : HalfStream}
    (written : parseAndWrite framing codec .empty data = .ok io) : readAndParse framing codec io = some (.ok data) := by
  unfold parseAndWrite at written
  split at written
  · rename_i buf encoded
    cases written
    exact readAndParse_frame framing codec roundTrip encoded true
  · cases written

end Wire

/-- Modelled from `unsigned_varint::encode::usize`, which `write_one` writes before the data: seven
bits a byte, low bits first, the high bit set on every byte but the last. `fuel` bounds the number
of bytes; `n` bytes are always enough (`encodeVarint`). -/
def encodeVarintWithin : Nat → Nat → Bytes
  | 0, n => [n.toUInt8]
  | fuel + 1, n => if n < 128 then [n.toUInt8] else (n % 128 + 128).toUInt8 :: encodeVarintWithin fuel (n / 128)

def encodeVarint (n : Nat) : Bytes := encodeVarintWithin n n

inductive VarintError
  | insufficient
  | overflow
  | notMinimal
  deriving DecidableEq, Repr

/-- Modelled from the `decode!` loop of `unsigned_varint::decode` for a `u64`, from byte `i` on:
the seven-bit groups of the bytes up to the first without the high bit, low group first, and the
bytes after it. That last byte may be zero only as the first byte (`NotMinimal`), and the tenth
byte must be the last (`Overflow`). -/
def decodeVarintFrom (i : Nat) : Bytes → Except VarintError (Nat × Bytes)
  | [] => .error .insufficient
  | byte :: rest =>
    if byte.toNat < 128 then
      if byte = 0 ∧ 0 < i then .error .notMinimal else .ok (byte.toNat, rest)
    else if i = 9 then .error .overflow
    else (decodeVarintFrom (i + 1) rest).map fun (n, after) => (byte.toNat - 128 + 128 * n, after)

/-- `unsigned_varint::decode::usize` on a 64-bit target: the groups are shifted into a `u64`
(`n |= k << (i * 7)`), which drops the bits past the 64th. -/
def decodeVarint (bytes : Bytes) : Except VarintError (Nat × Bytes) :=
  (decodeVarintFrom 0 bytes).map fun (n, after) => (n % 2 ^ 64, after)

theorem toNat_toUInt8 {n : Nat} (small : n < 256) : n.toUInt8.toNat = n :=
  UInt8.toNat_ofNat_of_lt small

theorem decodeVarintFrom_encodeVarintWithin (rest : Bytes) :
    ∀ fuel i n, n ≤ fuel → (0 < i → 0 < n) → n < 128 ^ (10 - i) →
      decodeVarintFrom i (encodeVarintWithin fuel n ++ rest) = .ok (n, rest)
  | 0, i, n, enough, minimal, _ => by
    obtain rfl : n = 0 := by omega
    obtain rfl : i = 0 := by by_contra later; exact absurd (minimal (by omega)) (by omega)
    rfl
  | fuel + 1, i, n, enough, minimal, fits => by
    by_cases small : n < 128
    · have nonzero : ¬(n.toUInt8 = 0 ∧ 0 < i) := fun ⟨zero, later⟩ => by
        have := congrArg UInt8.toNat zero
        rw [toNat_toUInt8 (by omega)] at this
        exact absurd (minimal later) (by simp_all)
      simp [encodeVarintWithin, decodeVarintFrom, small, toNat_toUInt8 (show n < 256 by omega), nonzero]
    · have early : i < 9 := by
        by_contra late
        have bound : 128 ^ (10 - i) ≤ 128 := by
          simpa using Nat.pow_le_pow_right (show 0 < 128 by decide) (show 10 - i ≤ 1 by omega)
        omega
      have split : 128 ^ (10 - i) = 128 ^ (10 - (i + 1)) * 128 := by
        rw [← Nat.pow_succ]
        congr 1
        omega
      have low : (n % 128 + 128).toUInt8.toNat = n % 128 + 128 := toNat_toUInt8 (by omega)
      have high := decodeVarintFrom_encodeVarintWithin rest fuel (i + 1) (n / 128) (by omega) (fun _ => by omega)
        ((Nat.div_lt_iff_lt_mul (by decide)).mpr (split ▸ fits))
      simp only [encodeVarintWithin, small, if_false, List.cons_append, decodeVarintFrom, low, high,
        show ¬n % 128 + 128 < 128 by omega, show i ≠ 9 by omega, Except.map]
      congr 2
      omega

theorem decodeVarint_encodeVarint {n : Nat} (fits : n ≤ usizeMax) (rest : Bytes) :
    decodeVarint (encodeVarint n ++ rest) = .ok (n, rest) := by
  have small : n < 2 ^ 64 := by unfold usizeMax at fits; omega
  rw [decodeVarint, encodeVarint,
    decodeVarintFrom_encodeVarintWithin rest n 0 n le_rfl (fun none => absurd none (by omega)) (lt_of_lt_of_le small (by decide))]
  exact congrArg (fun m => (Except.ok (m, rest) : Except VarintError (Nat × Bytes))) (Nat.mod_eq_of_lt small)

/-- Modelled from the transport's `read_one(io, max_size)` over `read_varint`, which reads the
length a byte at a time and decodes what it has read after each byte. A finished prefix gives the
length, `Overflow` is `InvalidData`, and any other decoding error reads on: while the direction is
open it waits, and at its end it is an empty message if nothing was read, `UnexpectedEof`
otherwise. (After a prefix that is not minimal `read_varint` panics once its ten-byte buffer is
full; that panic is left out.) Then `max_size` bounds the length and the frame's bytes are read. -/
def varintReadOne (maxSize : Nat) (io : HalfStream) : ReadOne :=
  match decodeVarint io.bytes with
  | .error .overflow => .err (.io ⟨.invalidData⟩)
  | .error _ =>
    if !io.closed then .pending
    else if io.bytes = [] then .ok []
    else .err (.io ⟨.unexpectedEof⟩)
  | .ok (length, rest) =>
    if maxSize < length then .err (.tooLarge length maxSize)
    else if length ≤ rest.length then .ok (rest.take length)
    else if io.closed then .err (.io ⟨.unexpectedEof⟩)
    else .pending

theorem varintReadOne_closed (maxSize : Nat) (bytes : Bytes) :
    varintReadOne maxSize ⟨bytes, true⟩ ≠ .pending := by
  unfold varintReadOne
  split
  · simp
  · split_ifs <;> simp_all
  · split_ifs <;> simp_all

def varintFraming : Framing where
  writeOne data := encodeVarint data.length ++ data
  readOne := varintReadOne
  readOne_writeOne maxSize data closed bounded fits := by
    simp [varintReadOne, decodeVarint_encodeVarint (fits.trans bounded), Nat.not_lt.mpr fits]
  readOne_empty _ := rfl
  readOne_closed := varintReadOne_closed

example : varintFraming.writeOne [7, 8] = [2, 7, 8] := rfl

def byteCodec : Codec UInt8 where
  toVec byte := some [byte]
  fromSlice
    | [byte] => some byte
    | _ => none
  toVec_length := by
    rintro _ _ ⟨⟩
    simp [usizeMax]

theorem byteCodec_roundTrip : byteCodec.RoundTrip := by
  rintro _ _ ⟨⟩
  rfl

theorem byte_frame_roundTrip :
    parseAndWrite varintFraming byteCodec .empty 5 = .ok ⟨[1, 5], true⟩ ∧
      readAndParse varintFraming byteCodec ⟨[1, 5], true⟩ = some (.ok 5) :=
  ⟨rfl, readAndParse_parseAndWrite varintFraming byteCodec byteCodec_roundTrip rfl⟩

end P2p
