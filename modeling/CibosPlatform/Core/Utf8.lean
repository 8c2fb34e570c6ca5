/- digest: Texts as their UTF-8 bytes. -/

import CibosPlatform.Core.Endian

namespace CibosPlatform.Core.Utf8

open LittleEndian Function

variable (text : String)

def toBytes : List Byte := text.toByteArray.data.toList.map UInt8.toBitVec

def fromBytes (bytes : List Byte) : Option String :=
  String.fromUTF8? ⟨(bytes.map UInt8.ofBitVec).toArray⟩

def byteLen : Nat := text.utf8ByteSize

/-- `char::is_whitespace`: the characters with the property White_Space. -/
def isWhitespace (c : Char) : Bool :=
  let code := c.toNat
  (0x9 ≤ code && code ≤ 0xD) || code = 0x20 || code = 0x85 || code = 0xA0 || code = 0x1680 ||
    (0x2000 ≤ code && code ≤ 0x200A) || code = 0x2028 || code = 0x2029 || code = 0x202F ||
    code = 0x205F || code = 0x3000

def trimEnd : String :=
  String.ofList (text.toList.reverse.dropWhile isWhitespace).reverse

def trim : String :=
  String.ofList ((text.toList.dropWhile isWhitespace).reverse.dropWhile isWhitespace).reverse

@[simp] theorem toBytes_length : (toBytes text).length = byteLen text := by
  rw [toBytes, List.length_map, Array.length_toList, ByteArray.size_data, byteLen,
    String.size_toByteArray]

theorem fromBytes_toBytes : fromBytes (toBytes text) = some text := by
  have hbytes : (⟨((toBytes text).map UInt8.ofBitVec).toArray⟩ : ByteArray) = text.toByteArray := by
    simp [toBytes, comp_def]
  rw [fromBytes, hbytes, String.fromUTF8?, dif_pos text.isValidUTF8]
  rfl

theorem toBytes_of_fromBytes {bytes : List Byte} {text : String} (h : fromBytes bytes = some text) :
    toBytes text = bytes := by
  rw [fromBytes, String.fromUTF8?] at h
  split at h
  · rw [← Option.some.inj h]
    simp [toBytes, String.fromUTF8, comp_def]
  · cases h

end CibosPlatform.Core.Utf8
