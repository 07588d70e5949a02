import TestBench.Digest
import TestBench.Image.Body

/-!
The binary form of an image: six magic bytes, a version byte, and the body as
compact JSON. An image is written only if its sizes fit, and it is read back
only from bytes that hold nothing after it.
-/
namespace TestBench.Image

/-- Why bytes are not an image. -/
inductive Defect where
  | badMagic
  | unsupportedVersion (version : Nat)
  | malformed
  deriving DecidableEq, Repr

def magic : Bytes := [0x54, 0x44, 0x44, 0x49, 0x4d, 0x47]

def version : UInt8 := 1

def header : Bytes := magic ++ [version]

def Defect.message : Defect → String
  | .badMagic => "not a tddlive image (bad magic)"
  | .unsupportedVersion v =>
    "unsupported image format version " ++ toString v ++ " (expected "
      ++ toString version.toNat ++ ")"
  | .malformed => "malformed image body"

def body (image : Image) : List Char := (Body.ofImage image).print

/-- The bytes without a check of the sizes. -/
def bytes (image : Image) : Bytes := header ++ Utf8.encode image.body

/-- The bytes of an image, unless some size in it needs more than 64 bits. -/
def encode? (image : Image) : Option Bytes := if image.fits then some image.bytes else none

def decode (bytes : Bytes) : Except Defect Image :=
  if magic.isPrefixOf bytes then
    match bytes.drop magic.length with
    | [] => .error .badMagic
    | v :: rest =>
      if v = version then
        match (JsonValue.ofBytes? rest).bind Body.image? with
        | some image => .ok image
        | none => .error .malformed
      else .error (.unsupportedVersion v.toNat)
  else .error .badMagic

end TestBench.Image
