/- GID: Craftec/Types/Digest
   generality: I
   digest: Thirty-two byte digests, the identifiers built on them, and the hash package. -/

import Mathlib.Data.List.Basic
import Craftec.Library.Records

set_option autoImplicit false
set_option relaxedAutoImplicit false

namespace Craftec.Types.Digest

open Craftec.Library.Records (records_injective)

/-- A byte string, `Vec<u8>` or `&[u8]` in the source. -/
abbrev Bytes := List UInt8

/-- The array `[u8; 32]`; its length is part of the value. -/
structure Bytes32 where
  bytes : Bytes
  size : bytes.length = 32
  deriving DecidableEq

/-- The array whose 32 bytes are all `b`. -/
def Bytes32.fill (b : UInt8) : Bytes32 := ⟨List.replicate 32 b, List.length_replicate⟩

/-- Content identifier: the raw BLAKE3 hash of the content it names. -/
structure Cid where
  digest : Bytes32
  deriving DecidableEq

structure PieceId where
  digest : Bytes32
  deriving DecidableEq

structure NodeId where
  key : Bytes32
  deriving DecidableEq

/-- The third-party `blake3` package: the hash of a byte string, and the
extendable output, whose `i`-th byte is independent of how it is chunked. -/
structure Blake3 where
  hash : Bytes → Bytes32
  xof : Bytes → ℕ → UInt8

def leading (data : Bytes) : Bytes32 :=
  ⟨(data ++ List.replicate 32 0).take 32, by simp⟩

/-- A stand-in for the hash package in closed runs: it tells apart data that
differ in their first 32 bytes. -/
def Blake3.byLeading : Blake3 := ⟨leading, fun _ _ => 0⟩

def someCid : Cid := ⟨Bytes32.fill 5⟩

def Cid.fromBytes (bytes : Bytes32) : Cid := ⟨bytes⟩

def Cid.asBytes (cid : Cid) : Bytes := cid.digest.bytes

/-- `try_into` from a slice: fails unless the slice has 32 bytes. -/
def Bytes32.ofSlice? (l : Bytes) : Option Bytes32 :=
  if h : l.length = 32 then some ⟨l, h⟩ else none

def hexDigit (n : ℕ) : Char := "0123456789abcdef".toList.getD n '0'

/-- `hex::encode`: two lower-case digits a byte. -/
def hexEncode (l : Bytes) : String :=
  String.ofList (l.flatMap fun b => [hexDigit (b.toNat / 16), hexDigit (b.toNat % 16)])

def hexValue (c : Char) : Option ℕ :=
  if 'A' ≤ c ∧ c ≤ 'F' then some (c.toNat - 'A'.toNat + 10)
  else if 'a' ≤ c ∧ c ≤ 'f' then some (c.toNat - 'a'.toNat + 10)
  else if '0' ≤ c ∧ c ≤ '9' then some (c.toNat - '0'.toNat)
  else none

/-- The digits of `hex::decode`; an odd number of them is an error. -/
def hexDigits : List Char → Option Bytes
  | [] => some []
  | [_] => none
  | high :: low :: rest => do
    let h ← hexValue high
    let l ← hexValue low
    let bytes ← hexDigits rest
    return UInt8.ofNat (h * 16 + l) :: bytes

def hexDecode (text : String) : Option Bytes := hexDigits text.toList

/-- `FromStr` of a content identifier, for callers that ask only whether it succeeds. -/
def Cid.fromStr (text : String) : Option Cid :=
  ((hexDecode text).bind Bytes32.ofSlice?).map Cid.fromBytes

/-- The `Display` text of a content identifier. -/
def Cid.display (cid : Cid) : String := hexEncode cid.asBytes

def NodeId.asBytes (id : NodeId) : Bytes := id.key.bytes

def NodeId.display (id : NodeId) : String := hexEncode id.asBytes

variable (B : Blake3)

/-- Hash `data` with BLAKE3 and return its `Cid`. -/
def Cid.fromData (data : Bytes) : Cid := ⟨B.hash data⟩

/-- Identify a coded piece by the hash of its raw bytes. -/
def PieceId.fromData (data : Bytes) : PieceId := ⟨B.hash data⟩

@[simp] theorem Cid.length_asBytes (cid : Cid) : cid.asBytes.length = 32 := cid.digest.size

theorem Bytes32.ofSlice?_asBytes (cid : Cid) : Bytes32.ofSlice? cid.asBytes = some cid.digest :=
  dif_pos cid.length_asBytes

theorem Cid.asBytes_injective : Function.Injective Cid.asBytes := by
  rintro ⟨⟨a, ha⟩⟩ ⟨⟨b, hb⟩⟩ h
  have : a = b := h
  subst this
  rfl

theorem NodeId.asBytes_injective : Function.Injective NodeId.asBytes := by
  rintro ⟨⟨a, ha⟩⟩ ⟨⟨b, hb⟩⟩ h
  have : a = b := h
  subst this
  rfl

theorem hexDigit_injective {m n : ℕ} (hm : m < 16) (hn : n < 16)
    (same : hexDigit m = hexDigit n) : m = n := by
  have table : ∀ a < 16, ∀ b < 16, hexDigit a = hexDigit b → a = b := by decide
  exact table m hm n hn same

theorem hexEncode_injective : Function.Injective hexEncode := by
  intro l m same
  have width (b : UInt8) : [hexDigit (b.toNat / 16), hexDigit (b.toNat % 16)].length = 2 := rfl
  have digits : Function.Injective
      fun b : UInt8 => [hexDigit (b.toNat / 16), hexDigit (b.toNat % 16)] := by
    intro a b same
    simp only [List.cons.injEq, and_true] at same
    have first : a.toNat < 256 := a.toNat_lt
    have second : b.toNat < 256 := b.toNat_lt
    have high := hexDigit_injective (by omega) (by omega) same.1
    have low := hexDigit_injective (Nat.mod_lt _ (by decide)) (Nat.mod_lt _ (by decide)) same.2
    apply UInt8.toNat_inj.mp
    omega
  exact records_injective width (by decide) digits (String.ofList_injective same)

theorem Cid.display_injective : Function.Injective Cid.display :=
  hexEncode_injective.comp Cid.asBytes_injective

theorem hexEncode_no_dot (l : Bytes) : '.' ∉ (hexEncode l).toList := by
  have digit : ∀ n < 16, '.' ≠ hexDigit n := by decide
  rw [hexEncode, String.toList_ofList]
  intro listed
  obtain ⟨b, _, isDigit⟩ := List.mem_flatMap.mp listed
  have below : b.toNat < 256 := b.toNat_lt
  rcases List.mem_pair.mp isDigit with high | low
  · exact digit _ (by omega) high
  · exact digit _ (Nat.mod_lt _ (by decide)) low

theorem hexValue_hexDigit {n : ℕ} (digit : n < 16) : hexValue (hexDigit n) = some n := by
  have table : ∀ m < 16, hexValue (hexDigit m) = some m := by decide
  exact table n digit

theorem hexDecode_hexEncode (l : Bytes) : hexDecode (hexEncode l) = some l := by
  rw [hexDecode, hexEncode, String.toList_ofList]
  induction l with
  | nil => rfl
  | cons b rest ih =>
    have below : b.toNat < 256 := b.toNat_lt
    have byte : UInt8.ofNat (b.toNat / 16 * 16 + b.toNat % 16) = b := by
      rw [Nat.div_add_mod']
      exact UInt8.ofNat_toNat
    simp only [List.flatMap_cons, List.cons_append, List.nil_append, hexDigits,
      hexValue_hexDigit (show b.toNat / 16 < 16 by omega),
      hexValue_hexDigit (show b.toNat % 16 < 16 by omega), ih, Option.bind_eq_bind,
      Option.bind_some, byte]
    rfl

theorem hexValue_of_hexDigits {l : List Char} {bytes : Bytes} (decoded : hexDigits l = some bytes) :
    ∀ c ∈ l, (hexValue c).isSome := by
  induction l using hexDigits.induct generalizing bytes with
  | case1 => exact fun c listed => absurd listed List.not_mem_nil
  | case2 c => cases decoded
  | case3 high low rest ih =>
    simp only [hexDigits, Option.bind_eq_bind, Option.bind_eq_some_iff] at decoded
    obtain ⟨h, first, l, second, later, onward, -⟩ := decoded
    intro c listed
    rcases List.mem_cons.mp listed with rfl | listed
    · rw [first]
      rfl
    · rcases List.mem_cons.mp listed with rfl | listed
      · rw [second]
        rfl
      · exact ih onward c listed

theorem Cid.fromStr_of_dot {text : String} (dotted : '.' ∈ text.toList) : Cid.fromStr text = none := by
  cases decoded : hexDecode text with
  | none => rw [Cid.fromStr, decoded]; rfl
  | some bytes => exact absurd (hexValue_of_hexDigits decoded '.' dotted) (by decide)

theorem Cid.fromStr_display (cid : Cid) : Cid.fromStr cid.display = some cid := by
  rw [Cid.fromStr, Cid.display, hexDecode_hexEncode, Option.bind_some, Bytes32.ofSlice?_asBytes]
  rfl

end Craftec.Types.Digest
